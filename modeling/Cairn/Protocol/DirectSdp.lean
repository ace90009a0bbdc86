import Cairn.Library.Results
import Cairn.Protocol.Direct
import Cairn.Protocol.IceCandidates

/-!
Owns the signals of a direct connection in `protocol/direct.rs`: the strict validation of
session descriptions and candidates, and the sanitising that removes the candidates a peer
may not be reached at.

Proves that what sanitising returns is valid, differs from its input by the removed lines
only and is left alone by a second pass.
-/

set_option autoImplicit false

namespace Cairn.Protocol

open Cairn.Library.TextLists
open Cairn.Library.IpAddresses
open Cairn.Library.Results

/-- `MAX_SIGNAL`. -/
def maxSignal : Nat := 16384

/-- `DirectSignal`. -/
inductive DirectSignal where
  | offer (sdp : Text)
  | answer (sdp : Text)
  | candidate (candidate : Text) (sdpMid : Option Text) (sdpMLineIndex : Option UInt16)
deriving DecidableEq

/-! ### Lines -/

/-- The lines that are accepted as they are. -/
def fixedLines : List Text :=
  ["v=0".toList, "s=-".toList, "t=0 0".toList, "a=ice-options:trickle".toList,
    "a=end-of-candidates".toList, "a=extmap-allow-mixed".toList, "a=setup:actpass".toList,
    "a=setup:active".toList, "a=setup:passive".toList, "a=sendrecv".toList,
    "a=msid-semantic:WMS".toList, "a=msid-semantic:WMS *".toList, "a=msid-semantic: WMS".toList,
    "a=msid-semantic: WMS *".toList]

/-- `valid_address`. -/
def validAddress (family value : Text) : Bool :=
  match parseIpAddr value with
  | some (.v4 _) => family = "IP4".toList
  | some (.v6 _) => family = "IP6".toList
  | none => false

/-- The lines that are read word by word. -/
def sdpWords (words : List Text) : Bool :=
  match words with
  | [start, session, version, network, family, address] =>
    start = "o=-".toList && network = "IN".toList && (parseUnsigned (2 ^ 64) session).isSome &&
      (parseUnsigned (2 ^ 64) version).isSome && validAddress family address
  | [start, family, address] => start = "c=IN".toList && validAddress family address
  | [start, port, transport, format] =>
    start = "m=application".toList && transport = "UDP/DTLS/SCTP".toList &&
      format = "webrtc-datachannel".toList && (parseUnsigned (2 ^ 16) port).isSome
  | _ => false

/-- The value behind the first of several starts of a line. -/
def valueBehind (starts : List Text) (line : Text) : Option Text :=
  starts.findSome? fun start => stripPrefix start line

/-- `sdp_line`. -/
def sdpLine (line : Text) : Bool :=
  if line ∈ fixedLines then true
  else if let some value := stripPrefix "a=fingerprint:".toList line then
    validFingerprint (String.ofList value)
  else if let some value := stripPrefix "a=candidate:".toList line then
    validCandidate ("candidate:".toList ++ value)
  else if let some value :=
      valueBehind ["a=mid:".toList, "a=ice-ufrag:".toList, "a=ice-pwd:".toList] line then
    token value 256
  else if let some value :=
      valueBehind ["a=sctp-port:".toList, "a=max-message-size:".toList] line then
    (parseUnsigned (2 ^ 32) value).isSome
  else if let some value := stripPrefix "a=group:BUNDLE ".toList line then
    (value.splitOn ' ').all fun mid => token mid 32
  else sdpWords (line.splitOn ' ')

/-! ### Signals -/

/-- `DirectSignal::valid` of a session description. -/
def validSdp (sdp : Text) : Bool :=
  byteLength sdp ≤ maxSignal && startsWith ("v=0".toList ++ crlf) sdp && (lines sdp).all sdpLine &&
    (lines sdp).any (startsWith "m=application ".toList) &&
    (lines sdp).any fun line => match stripPrefix "a=fingerprint:".toList line with
      | some value => validFingerprint (String.ofList value)
      | none => false

namespace DirectSignal

/-- `DirectSignal::valid`. -/
def valid : DirectSignal → Bool
  | .offer sdp => validSdp sdp
  | .answer sdp => validSdp sdp
  | .candidate text sdpMid sdpMLineIndex =>
    validCandidate text &&
      (match sdpMid with
        | none => true
        | some mid => byteLength mid ≤ 32 && mid.all fun char => char.isAlphanum || char == '-') &&
      (match sdpMLineIndex with
        | none => true
        | some index => index == 0)

end DirectSignal

/-! ### Sanitising -/

/-- The loop state of `sanitize_candidates`. -/
structure Kept where
  hadCandidates : Bool
  usable : Bool
  lines : List Text
deriving DecidableEq

namespace Kept

/-- The lines before the loop. -/
def empty : Kept := ⟨false, false, []⟩

/-- A line that is kept. -/
def push (line : Text) (kept : Kept) : Kept := { kept with lines := kept.lines ++ [line] }

/-- One round of the loop of `sanitize_candidates`. -/
def add (kept : Kept) (line : Text) : Except String Kept :=
  match stripPrefix "a=".toList line with
  | none => .ok (kept.push line)
  | some candidate =>
    if startsWith "candidate:".toList candidate then
      let kept := { kept with hadCandidates := true }
      if candidateSyntax candidate = false then .error "Invalid ICE candidate"
      else if usableCandidate candidate = false then .ok kept
      else .ok (push line { kept with usable := true })
    else .ok (kept.push line)

end Kept

/-- `sanitize_candidates` of a session description. -/
def sanitizeSdp (sdp : Text) : Except String Text :=
  if maxSignal < byteLength sdp ∨ startsWith ("v=0".toList ++ crlf) sdp = false then
    .error "Invalid direct SDP"
  else
    match (lines sdp).foldlM Kept.add Kept.empty with
    | .error failure => .error failure
    | .ok kept =>
      if kept.hadCandidates ∧ kept.usable = false then .error "No usable numeric ICE candidate"
      else .ok (joinLines kept.lines)

namespace DirectSignal

/-- The last check of `sanitize_candidates`. -/
def checked (signal : DirectSignal) : Except String (Option DirectSignal) :=
  if signal.valid then .ok (some signal) else .error "Invalid direct signal"

/-- `DirectSignal::sanitize_candidates`. -/
def sanitizeCandidates : DirectSignal → Except String (Option DirectSignal)
  | .offer sdp => do checked (.offer (← sanitizeSdp sdp))
  | .answer sdp => do checked (.answer (← sanitizeSdp sdp))
  | .candidate text sdpMid sdpMLineIndex =>
    if candidateSyntax text = false ∨
        (DirectSignal.candidate [] sdpMid sdpMLineIndex).valid = false then
      .error "Invalid ICE candidate"
    else if text ≠ [] ∧ usableCandidate text = false then .ok none
    else checked (.candidate text sdpMid sdpMLineIndex)

end DirectSignal

/-! ### Lines with candidates -/

/-- A line that is a candidate. -/
def isCandidateLine (line : Text) : Bool := startsWith "a=candidate:".toList line

/-- A candidate line with a numeric address, its fifth word between single blanks, that a peer
may be reached at. -/
def namesDestination (line : Text) : Bool :=
  match stripPrefix "a=candidate:".toList line with
  | none => false
  | some value => match ((value.splitOn ' ')[4]?).bind parseIpAddr with
    | none => false
    | some ip => usableCandidateAddress ip

/-- A line that sanitising keeps. -/
def isKept (line : Text) : Bool := !isCandidateLine line || namesDestination line

theorem isCandidateLine_iff {line : Text} :
    isCandidateLine line ↔ ∃ value, line = "a=candidate:".toList ++ value := startsWith_iff

theorem isCandidateLine_append (value : Text) : isCandidateLine ("a=candidate:".toList ++ value) :=
  isCandidateLine_iff.mpr ⟨value, rfl⟩

theorem namesDestination_append (value : Text) :
    namesDestination ("a=candidate:".toList ++ value) ↔
      ∃ address ip, (value.splitOn ' ')[4]? = some address ∧ parseIpAddr address = some ip ∧
        usableCandidateAddress ip := by
  unfold namesDestination
  rw [stripPrefix_append]
  dsimp only
  cases parsed : ((value.splitOn ' ')[4]?).bind parseIpAddr with
  | none =>
      refine ⟨fun impossible => (nomatch impossible), ?_⟩
      rintro ⟨address, ip, found, known, _⟩
      rw [found, Option.bind_some, known] at parsed
      contradiction
  | some ip =>
      obtain ⟨address, found, known⟩ := Option.bind_eq_some_iff.mp parsed
      refine ⟨fun usable => ⟨address, ip, found, known, usable⟩, ?_⟩
      rintro ⟨_, _, other, same, usable⟩
      obtain rfl := Option.some.inj (found.symm.trans other)
      obtain rfl := Option.some.inj (known.symm.trans same)
      exact usable

/-- In an accepted candidate the address between blanks decides, as the one between white
space does. -/
theorem usableCandidate_iff_namesDestination {value : Text}
    (accepted : candidateSyntax ("candidate:".toList ++ value)) :
    usableCandidate ("candidate:".toList ++ value) =
      namesDestination ("a=candidate:".toList ++ value) := by
  obtain ⟨address, addressed⟩ := Addressed.exists accepted (List.append_ne_nil_of_left_ne_nil (by decide) _)
  obtain ⟨other, same, found⟩ := addressed.spaced
  obtain rfl := List.append_cancel_left same
  rw [Bool.eq_iff_iff, usableCandidate_iff addressed, namesDestination_append]
  constructor
  · exact fun ⟨ip, parsed, usable⟩ => ⟨address, ip, found, parsed, usable⟩
  · rintro ⟨_, ip, there, parsed, usable⟩
    obtain rfl := Option.some.inj (found.symm.trans there)
    exact ⟨ip, parsed, usable⟩

/-! ### Rounds -/

namespace Kept

/-- What a round does with a line that is no candidate. -/
theorem add_of_other {kept : Kept} {line : Text} (other : isCandidateLine line = false) :
    kept.add line = .ok (kept.push line) := by
  unfold add
  cases found : stripPrefix "a=".toList line with
  | none => rfl
  | some candidate =>
      obtain rfl := stripPrefix_eq_some.mp found
      have later : startsWith "candidate:".toList candidate = false := by
        rw [Bool.eq_false_iff] at other ⊢
        intro starts
        obtain ⟨value, rfl⟩ := startsWith_iff.mp starts
        exact other (isCandidateLine_append value)
      dsimp only
      rw [if_neg (by rw [later]; exact Bool.false_ne_true)]

/-- What a round does with a candidate. -/
theorem add_of_candidate {kept : Kept} {value : Text} :
    kept.add ("a=candidate:".toList ++ value) =
      if candidateSyntax ("candidate:".toList ++ value) = false then .error "Invalid ICE candidate"
      else if namesDestination ("a=candidate:".toList ++ value) = false then
        .ok { kept with hadCandidates := true }
      else .ok (push ("a=candidate:".toList ++ value)
        { kept with hadCandidates := true, usable := true }) := by
  have found : stripPrefix "a=".toList ("a=candidate:".toList ++ value) =
      some ("candidate:".toList ++ value) := stripPrefix_append _ _
  unfold add
  rw [found]
  dsimp only
  rw [if_pos (startsWith_iff.mpr ⟨value, rfl⟩)]
  cases accepted : candidateSyntax ("candidate:".toList ++ value) with
  | false => rfl
  | true => rw [usableCandidate_iff_namesDestination accepted]

/-- What the loop has done after some lines. -/
structure After (lines : List Text) (kept : Kept) : Prop where
  remaining : kept.lines = lines.filter isKept
  hadCandidates : kept.hadCandidates = lines.any isCandidateLine
  usable : kept.usable = lines.any fun line => isCandidateLine line && namesDestination line
  accepted : ∀ value, "a=candidate:".toList ++ value ∈ lines →
    candidateSyntax ("candidate:".toList ++ value)

theorem After.empty : After [] Kept.empty where
  remaining := rfl
  hadCandidates := rfl
  usable := rfl
  accepted := fun _ impossible => (nomatch impossible)

/-- A property of some line, with one more line. -/
theorem any_concat {lines : List Text} {line : Text} {property : Text → Bool} :
    (lines ++ [line]).any property = (lines.any property || property line) := by
  rw [List.any_append, List.any_cons, List.any_nil, Bool.or_false]

/-- One round takes one more line. -/
theorem After.add {lines : List Text} {kept next : Kept} {line : Text} (after : After lines kept)
    (added : kept.add line = .ok next) : After (lines ++ [line]) next := by
  cases candidate : isCandidateLine line with
  | false =>
      rw [add_of_other candidate] at added
      cases added
      constructor
      · rw [push, after.remaining, List.filter_append, List.filter_singleton, isKept, candidate]
        rfl
      · rw [any_concat, candidate, Bool.or_false]
        exact after.hadCandidates
      · rw [any_concat, candidate, Bool.false_and, Bool.or_false]
        exact after.usable
      · intro value member
        rcases List.mem_append.mp member with before | here
        · exact after.accepted value before
        · rw [← List.mem_singleton.mp here, isCandidateLine_append] at candidate
          contradiction
  | true =>
      obtain ⟨value, rfl⟩ := isCandidateLine_iff.mp candidate
      rw [add_of_candidate] at added
      cases accepted : candidateSyntax ("candidate:".toList ++ value) with
      | false =>
          rw [if_pos accepted] at added
          contradiction
      | true =>
          rw [if_neg (by rw [accepted]; exact Bool.true_eq_false.mp)] at added
          have known : ∀ other, "a=candidate:".toList ++ other ∈ lines ++ ["a=candidate:".toList ++ value] →
              candidateSyntax ("candidate:".toList ++ other) := by
            intro other member
            rcases List.mem_append.mp member with before | here
            · exact after.accepted other before
            · rw [List.append_cancel_left (List.mem_singleton.mp here)]
              exact accepted
          cases named : namesDestination ("a=candidate:".toList ++ value) with
          | false =>
              rw [if_pos named] at added
              cases added
              refine ⟨?_, ?_, ?_, known⟩
              · rw [after.remaining, List.filter_append, List.filter_singleton, isKept, candidate, named]
                exact (List.append_nil _).symm
              · rw [any_concat, candidate, Bool.or_true]
              · rw [after.usable, any_concat, named, Bool.and_false, Bool.or_false]
          | true =>
              rw [if_neg (by rw [named]; exact Bool.true_eq_false.mp)] at added
              cases added
              refine ⟨?_, ?_, ?_, known⟩
              · rw [push, after.remaining, List.filter_append, List.filter_singleton, isKept, named,
                  Bool.or_true]
                rfl
              · rw [any_concat, candidate, Bool.or_true]
                rfl
              · rw [any_concat, candidate, named, Bool.and_true, Bool.or_true]
                rfl

/-- The loop takes all lines. -/
theorem After.all {lines : List Text} {kept : Kept}
    (ran : lines.foldlM Kept.add Kept.empty = .ok kept) : After lines kept := by
  have start : ∃ before, before ++ lines = lines ∧ After before Kept.empty :=
    ⟨[], rfl, After.empty⟩
  obtain ⟨before, split, after⟩ := @foldlM_eq_ok String _ _ Kept.add
    (fun rest kept => ∃ before, before ++ rest = lines ∧ After before kept)
    (fun line rest kept next ⟨before, split, after⟩ added =>
      ⟨before ++ [line], by rw [← split]; simp, after.add added⟩)
    lines Kept.empty kept start ran
  rw [List.append_nil] at split
  exact split ▸ after

/-- Where every candidate is accepted the loop ends. -/
theorem After.exists {lines : List Text} (accepted : ∀ value, "a=candidate:".toList ++ value ∈ lines →
    candidateSyntax ("candidate:".toList ++ value)) :
    ∃ kept, lines.foldlM Kept.add Kept.empty = .ok kept := by
  have step : ∀ line ∈ lines, ∀ kept : Kept, ∃ next, kept.add line = .ok next := by
    intro line member kept
    cases candidate : isCandidateLine line with
    | false => exact ⟨_, add_of_other candidate⟩
    | true =>
        obtain ⟨value, rfl⟩ := isCandidateLine_iff.mp candidate
        rw [add_of_candidate, if_neg (by rw [accepted value member]; exact Bool.true_eq_false.mp)]
        split
        · exact ⟨_, rfl⟩
        · exact ⟨_, rfl⟩
  have inside : ∀ line ∈ lines, line ∈ lines := fun line member => member
  obtain ⟨kept, ran, _⟩ := @foldlM_ok String _ _ Kept.add
    (fun rest _ => ∀ line ∈ rest, line ∈ lines)
    (fun line rest kept inside => by
      obtain ⟨next, added⟩ := step line (inside line List.mem_cons_self) kept
      exact ⟨next, added, fun other member => inside other (List.mem_cons_of_mem _ member)⟩)
    lines Kept.empty inside
  exact ⟨kept, ran⟩

end Kept

/-! ### Descriptions -/

theorem isKept_iff {line : Text} : isKept line ↔ (isCandidateLine line → namesDestination line) := by
  unfold isKept
  cases isCandidateLine line with
  | false => exact ⟨fun _ impossible => (nomatch impossible), fun _ => rfl⟩
  | true => exact ⟨fun named _ => named, fun named => named rfl⟩

/-- What an accepted description is made of. -/
structure Accepted (sdp cleaned : Text) : Prop where
  joined : cleaned = joinLines ((lines sdp).filter isKept)
  started : startsWith ("v=0".toList ++ crlf) sdp
  syntactic : ∀ value, "a=candidate:".toList ++ value ∈ lines sdp →
    candidateSyntax ("candidate:".toList ++ value)

theorem Accepted.of {sdp cleaned : Text} (sanitized : sanitizeSdp sdp = .ok cleaned) :
    Accepted sdp cleaned := by
  unfold sanitizeSdp at sanitized
  split at sanitized
  · contradiction
  · rename_i fits
    rw [not_or] at fits
    cases ran : (lines sdp).foldlM Kept.add Kept.empty with
    | error failure =>
        rw [ran] at sanitized
        contradiction
    | ok kept =>
        rw [ran] at sanitized
        dsimp only at sanitized
        split at sanitized
        · contradiction
        · cases sanitized
          have after := Kept.After.all ran
          exact ⟨congrArg joinLines after.remaining, Bool.not_eq_false _ ▸ fits.2, after.accepted⟩

/-- The first line of an accepted description is kept, so the description can be read back. -/
theorem Accepted.lines_eq {sdp cleaned : Text} (accepted : Accepted sdp cleaned) :
    lines cleaned = (lines sdp).filter isKept := by
  rw [accepted.joined]
  refine lines_joinLines (fun empty => ?_) fun line member =>
    not_mem_lines (List.mem_of_mem_filter member)
  obtain ⟨rest, rfl⟩ := startsWith_iff.mp accepted.started
  rw [lines_append_crlf (by decide), List.filter_cons_of_pos (by decide)] at empty
  contradiction

/-- A description whose candidates all stay is left as it is. -/
theorem Accepted.again {sdp cleaned : Text} (accepted : Accepted sdp cleaned)
    (valid : validSdp cleaned) : sanitizeSdp cleaned = .ok cleaned := by
  have split := accepted.lines_eq
  simp only [validSdp, Bool.and_eq_true, decide_eq_true_eq] at valid
  have fits : ¬ (maxSignal < byteLength cleaned ∨
      startsWith ("v=0".toList ++ crlf) cleaned = false) := by
    rw [not_or]
    exact ⟨Nat.not_lt.mpr valid.1.1.1.1, by rw [valid.1.1.1.2]; exact Bool.true_eq_false.mp⟩
  have named : ∀ line ∈ lines cleaned, isKept line := by
    intro line member
    rw [split] at member
    exact List.of_mem_filter member
  obtain ⟨kept, ran⟩ := @Kept.After.exists (lines cleaned) fun value member => by
    rw [split] at member
    exact accepted.syntactic value (List.mem_of_mem_filter member)
  have after := Kept.After.all ran
  have usable : ¬ (kept.hadCandidates = true ∧ kept.usable = false) := by
    rintro ⟨had, unusable⟩
    rw [after.hadCandidates, List.any_eq_true] at had
    obtain ⟨line, member, candidate⟩ := had
    rw [after.usable, List.any_eq_false] at unusable
    refine unusable line member ?_
    rw [candidate, isKept_iff.mp (named line member) candidate]
    rfl
  have whole : joinLines kept.lines = cleaned := by
    rw [after.remaining, List.filter_eq_self.mpr named, split, accepted.joined]
  unfold sanitizeSdp
  rw [if_neg fits, ran]
  dsimp only
  rw [if_neg usable, whole]

/-- A candidate line with an address that a peer may be reached at. -/
structure UsableLine (line value address : Text) (ip : IpAddr) : Prop where
  candidate : line = "a=candidate:".toList ++ value
  valid : validCandidate ("candidate:".toList ++ value)
  fifth : (value.splitOn ' ')[4]? = some address
  numeric : parseIpAddr address = some ip
  usable : usableCandidateAddress ip
  unicast : ip.isUnicast

theorem UsableLine.exists {value : Text} (accepted : candidateSyntax ("candidate:".toList ++ value))
    (named : namesDestination ("a=candidate:".toList ++ value)) :
    ∃ address ip, UsableLine ("a=candidate:".toList ++ value) value address ip := by
  obtain ⟨address, ip, found, parsed, usable⟩ := (namesDestination_append value).mp named
  refine ⟨address, ip, rfl, ?_, found, parsed, usable, isUnicast_of_usable usable⟩
  exact validCandidate_of_usable accepted (usableCandidate_iff_namesDestination accepted ▸ named)

/-- What sanitising does to a session description. -/
structure SanitizedSdp (sdp cleaned : Text) : Prop where
  remaining : lines cleaned = (lines sdp).filter isKept
  joined : cleaned = joinLines (lines cleaned)
  destinations : ∀ line ∈ lines cleaned, isCandidateLine line →
    ∃ value address ip, UsableLine line value address ip

theorem Accepted.sanitizedSdp {sdp cleaned : Text} (accepted : Accepted sdp cleaned) :
    SanitizedSdp sdp cleaned where
  remaining := accepted.lines_eq
  joined := by rw [accepted.lines_eq, accepted.joined]
  destinations := by
    intro line member candidate
    rw [accepted.lines_eq] at member
    obtain ⟨inside, kept⟩ := List.mem_filter.mp member
    obtain ⟨value, rfl⟩ := isCandidateLine_iff.mp candidate
    exact ⟨value, UsableLine.exists (accepted.syntactic value inside) (isKept_iff.mp kept candidate)⟩

/-! ### Sanitised signals -/

/-- What sanitising does to a signal. -/
inductive Sanitized : DirectSignal → DirectSignal → Prop where
  | offer {sdp cleaned : Text} (description : SanitizedSdp sdp cleaned) :
      Sanitized (.offer sdp) (.offer cleaned)
  | answer {sdp cleaned : Text} (description : SanitizedSdp sdp cleaned) :
      Sanitized (.answer sdp) (.answer cleaned)
  | candidate {text : Text} {sdpMid : Option Text} {sdpMLineIndex : Option UInt16}
      (usable : text ≠ [] → usableCandidate text) :
      Sanitized (.candidate text sdpMid sdpMLineIndex) (.candidate text sdpMid sdpMLineIndex)

namespace DirectSignal

theorem checked_eq_ok {signal cleaned : DirectSignal} :
    signal.checked = .ok (some cleaned) ↔ signal = cleaned ∧ signal.valid := by
  unfold checked
  cases valid : signal.valid with
  | false => simp
  | true => simp

/-- An accepted signal comes out valid, without the destinations a peer may not be reached at
and otherwise as it was, and a second pass returns it unchanged. -/
theorem sanitizeCandidates_accepted {signal cleaned : DirectSignal}
    (accepted : signal.sanitizeCandidates = .ok (some cleaned)) :
    cleaned.valid ∧ Sanitized signal cleaned ∧ cleaned.sanitizeCandidates = .ok (some cleaned) := by
  cases signal with
  | offer sdp =>
      obtain ⟨text, sanitized, finished⟩ := bind_eq_ok.mp accepted
      obtain ⟨rfl, valid⟩ := checked_eq_ok.mp finished
      have known := Accepted.of sanitized
      exact ⟨valid, .offer known.sanitizedSdp,
        bind_eq_ok.mpr ⟨text, known.again valid, checked_eq_ok.mpr ⟨rfl, valid⟩⟩⟩
  | answer sdp =>
      obtain ⟨text, sanitized, finished⟩ := bind_eq_ok.mp accepted
      obtain ⟨rfl, valid⟩ := checked_eq_ok.mp finished
      have known := Accepted.of sanitized
      exact ⟨valid, .answer known.sanitizedSdp,
        bind_eq_ok.mpr ⟨text, known.again valid, checked_eq_ok.mpr ⟨rfl, valid⟩⟩⟩
  | candidate text sdpMid sdpMLineIndex =>
      have whole := accepted
      rw [sanitizeCandidates] at accepted
      split at accepted
      · contradiction
      · split at accepted
        · cases accepted
        · rename_i usable
          obtain ⟨rfl, valid⟩ := checked_eq_ok.mp accepted
          refine ⟨valid, .candidate fun nonempty => ?_, whole⟩
          cases found : usableCandidate text with
          | true => rfl
          | false => exact absurd ⟨nonempty, found⟩ usable

/-- A description with a reachable candidate and, in some place, a local name. -/
def described (named : List Text) : List Text :=
  ["v=0".toList, "m=application 9 UDP/DTLS/SCTP webrtc-datachannel".toList,
    "a=fingerprint:sha-256 00:11:22:33:44:55:66:77:88:99:AA:BB:CC:DD:EE:FF:00:11:22:33:44:55:66:77:88:99:AA:BB:CC:DD:EE:FF".toList] ++
    named ++ ["a=candidate:1 1 udp 1 192.168.1.2 9 typ host".toList]

theorem sanitizeCandidates_accepted_sample :
    (offer (joinLines (described []))).valid ∧
      Sanitized (offer (joinLines (described ["a=candidate:1 1 udp 1 a.local 9 typ host".toList])))
        (offer (joinLines (described []))) ∧
      (offer (joinLines (described []))).sanitizeCandidates =
        .ok (some (offer (joinLines (described [])))) :=
  sanitizeCandidates_accepted (by decide +kernel)

end DirectSignal

end Cairn.Protocol
