import Cairn.Chats.Questions

/-!
Owns one chat together with its public artifact links and the cleanup that purges it: the
cleanup lists the chats, claims one that is due and deletes it, and holds the storage lock
from the listing until it ends; a restore needs the lock too.

What a purge removes outside the tables is left out: it succeeds, fails or stops.

Does not own what a chat in the trash is kept from.
-/

set_option autoImplicit false

namespace Cairn.Chats

open Cairn.Library.Records
open Cairn.Worker

/-! ### Artifacts and their links -/

/-- Whether an artifact has a public link. -/
inductive Visibility where
  | hidden
  | shared
deriving DecidableEq, Repr

/-- A record `artifact:{run}:{id}`. -/
structure Artifact where
  runId : String
  id : String
  visibility : Visibility := .hidden
  publicToken : Option String := none
  publicUrl : Option String := none
deriving DecidableEq, Repr

/-- The key of an artifact. -/
def Artifact.key (artifact : Artifact) : String × String := (artifact.runId, artifact.id)

/-- `ShareLink`, the record `artifact-share:{token}`. -/
structure ShareLink where
  token : String
  runId : String
  id : String
deriving DecidableEq, Repr

/-- The artifacts and the links to them. -/
structure Sharing where
  artifacts : List Artifact := []
  links : List ShareLink := []
deriving DecidableEq, Repr

namespace Sharing

/-- Delete the link of an artifact. -/
def unlink (links : List ShareLink) (artifact : Artifact) : List ShareLink :=
  match artifact.publicToken with
  | some token => remove ShareLink.token token links
  | none => links

/-- The artifact without a link. -/
def hide (artifact : Artifact) : Artifact :=
  { artifact with visibility := .hidden, publicToken := none, publicUrl := none }

/-- `require_active_run`. -/
def requireActiveRun (db : Db) (run : String) : Except Error Unit :=
  match db.chatForRun run with
  | some chat => chat.requireActive
  | none => .ok ()

/-- `apply`: an artifact is shared under its token or a fresh one, or hidden. -/
def apply (db : Db) (sharing : Sharing) (record : Artifact) (visibility : Visibility)
    (origin fresh : String) : Except Error Sharing :=
  match visibility with
  | .shared => do
      requireActiveRun db record.runId
      let token := (record.publicToken.filter fun token => token ≠ "").getD fresh
      let origin := String.ofList (origin.toList.reverse.dropWhile fun letter => letter = '/').reverse
      let shared := { record with
        visibility := .shared
        publicToken := some token
        publicUrl := some (origin ++ "/artifacts/" ++ token) }
      .ok { artifacts := put Artifact.key shared sharing.artifacts
            links := put ShareLink.token ⟨token, record.runId, record.id⟩ sharing.links }
  | .hidden =>
      .ok { artifacts := put Artifact.key (hide record) sharing.artifacts
            links := unlink sharing.links record }

/-- The transaction of `set`, given whether the bearer of a token owns the run. -/
def set (db : Db) (sharing : Sharing) (run artifact : String) (visibility : Visibility)
    (origin fresh : String) (authorized : Bool) : Except Error Sharing :=
  if !authorized then .error (Error.forbidden "Artifact is outside this run.")
  else if (db.run? run).isNone then .error (Error.notFound "Run not found")
  else
    match find Artifact.key (run, artifact) sharing.artifacts with
    | none => .error (Error.notFound "Artifact not found")
    | some record => apply db sharing record visibility origin fresh

/-- The transaction of `commit`, given whether the publishing turn is still active. -/
def commit (db : Db) (sharing : Sharing) (record : Artifact) (visibility : Visibility)
    (origin fresh : String) (current : Bool) : Except Error Sharing := do
  requireActiveRun db record.runId
  if !current then .error (Error.conflict "The active turn changed during publication.")
  else apply db sharing record visibility origin fresh

/-- `unshare_artifacts`. -/
def unshare (sharing : Sharing) (run : String) : Sharing where
  artifacts := sharing.artifacts.map fun artifact =>
    if artifact.runId = run then hide artifact else artifact
  links := (sharing.artifacts.filter fun artifact => artifact.runId = run).foldl unlink
    sharing.links

/-- What `forget` deletes. -/
def forget (sharing : Sharing) (run : String) : Sharing where
  artifacts := sharing.artifacts.filter fun artifact => artifact.runId ≠ run
  links := (sharing.artifacts.filter fun artifact => artifact.runId = run).foldl unlink
    sharing.links

end Sharing

/-! ### The cleanup -/

/-- What a cleanup has done while it holds the storage lock. -/
inductive Cleanup where
  | listed (chat : Option Chat)
  | claimed (chat : Chat)

/-- A chat with its artifacts and the cleanup that holds the storage lock. -/
structure Conversation where
  state : State
  sharing : Sharing := {}
  cleanup : Option Cleanup := none

/-- A step of a chat, of its artifacts or of the cleanup. -/
inductive Change where
  | chat (step : Step)
  | release (run : String) (id : Option String)
  | trash (now : Int) (confirmed : Bool)
  | restore (now : Int)
  | share (run artifact : String) (visibility : Visibility) (origin fresh : String)
      (authorized : Bool)
  | publish (record : Artifact) (visibility : Visibility) (origin fresh : String)
      (current : Bool)
  | list
  | claim (now : Int)
  | purged
  | purgeFailed (now : Int)
  | abandon

/-- `PURGE_RETRY_MS`. -/
def purgeRetryMs : Int := 60000

/-- The steps that the cleanup and the lock refine. -/
def Step.isRefined : Step → Bool
  | .trash .. | .restore .. | .purge .. | .forget => true
  | _ => false

/-- A restart of the worker comes with a restart of the process. -/
def Step.restarts : Step → Bool
  | .restart _ => true
  | _ => false

namespace Conversation

/-- The tables. -/
def db (conversation : Conversation) : Db := conversation.state.db

/-- The tables after a transaction. -/
def withDb (conversation : Conversation) (db : Db) : Conversation :=
  { conversation with state := { conversation.state with db } }

/-- Commit what the artifacts become. -/
def commitSharing (conversation : Conversation) (result : Except Error Sharing) : Conversation :=
  match result with
  | .ok sharing => { conversation with sharing }
  | .error _ => conversation

/-- `trash`, with the links of the artifacts. -/
def trash (conversation : Conversation) (now : Int) (confirmed : Bool) : Conversation :=
  match Chats.trash conversation.db now confirmed with
  | .error _ => conversation
  | .ok db =>
      let deleted := conversation.withDb db
      match conversation.db.chat with
      | some chat =>
          if chat.inTrash then deleted
          else { deleted with sharing := deleted.sharing.unshare (chat.runId.getD "") }
      | none => deleted

/-- The claim of a chat that was listed as due. -/
def claim (conversation : Conversation) (listed : Option Chat) (now : Int) : Conversation :=
  if listed.any fun chat => purgeDue chat now then
    match markPurging conversation.db with
    | .ok (db, true) =>
        { conversation.withDb db with cleanup := db.chat.map .claimed }
    | .ok (_, false) => { conversation with cleanup := some (.listed none) }
    | .error _ => { conversation with cleanup := none }
  else { conversation with cleanup := some (.listed none) }

/-- `record_purge_failure`. -/
def recordPurgeFailure (db : Db) (now : Int) : Db :=
  { db with chat := db.chat.map fun chat => { chat with retryAfter := some (now + purgeRetryMs) } }

/-- One change. -/
def change (conversation : Conversation) : Change → Option Conversation
  | .chat step =>
      if step.isRefined then none
      else (conversation.state.step step).map fun state =>
        { conversation with
          state
          cleanup := if step.restarts then none else conversation.cleanup }
  | .release run id => some (conversation.withDb (Chats.release conversation.db run id))
  | .trash now confirmed => some (conversation.trash now confirmed)
  | .restore now =>
      match conversation.cleanup with
      | some _ => some conversation
      | none =>
          match Chats.restore conversation.db now with
          | .ok db => some (conversation.withDb db)
          | .error _ => some conversation
  | .share run artifact visibility origin fresh authorized =>
      some (conversation.commitSharing (conversation.sharing.set conversation.db run artifact
        visibility origin fresh authorized))
  | .publish record visibility origin fresh current =>
      some (conversation.commitSharing (conversation.sharing.commit conversation.db record
        visibility origin fresh current))
  | .list =>
      match conversation.cleanup with
      | some _ => none
      | none => some { conversation with cleanup := some (.listed conversation.db.chat) }
  | .claim now =>
      match conversation.cleanup with
      | some (.listed listed) => some (conversation.claim listed now)
      | _ => none
  | .purged =>
      match conversation.cleanup with
      | some (.claimed chat) =>
          some { conversation.withDb (Chats.forget conversation.db chat) with
            sharing := conversation.sharing.forget (chat.runId.getD "")
            cleanup := none }
      | _ => none
  | .purgeFailed now =>
      match conversation.cleanup with
      | some (.claimed _) =>
          some { conversation.withDb (recordPurgeFailure conversation.db now) with cleanup := none }
      | _ => none
  | .abandon => conversation.cleanup.map fun _ => { conversation with cleanup := none }

end Conversation

end Cairn.Chats
