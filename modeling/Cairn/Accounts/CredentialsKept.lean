import Mathlib.Order.Nat
import Cairn.Accounts.Credentials
import Cairn.Library.Steps

/-!
Owns that no session and no sign-in replaces the vault's credential by an older one on its
own account, and when the vault holds the credential that was issued last, wherever calls
fail or the process stops.

Does not own which leftover homes exist.
-/

set_option autoImplicit false

namespace Cairn.Accounts

open Cairn.Library.Faults
open Cairn.Library.Faults.Effect
open Cairn.Library.Steps

variable {keyring next : Keyring} {home : Home} {purpose : Purpose} {credential : Credential}
  {Kept : Keyring → Prop}

/-! ### The calls -/

/-- The vault took what a home holds. -/
def Captured (home : Home) (keyring next : Keyring) : Prop :=
  ∃ credential, keyring.auth home = some credential ∧
    next = keyring.store credential (keyring.cause home)

theorem touch_ensures {Done : Unit → Keyring → Prop} {Broken : Keyring → Prop}
    (done : Done () keyring) (broken : Broken keyring) : Ensures touch keyring Done Broken :=
  ensures_perform done broken broken

theorem capture_ensures (home : Home) :
    Ensures (capture home) keyring (fun _ next => Captured home keyring next)
      (fun next => next = keyring ∨ Captured home keyring next) := by
  refine ensures_bind (ensures_call ?_ (.inl rfl) (.inl rfl))
  cases held : keyring.auth home with
  | none => exact ensures_fail (.inl rfl)
  | some credential =>
      have captured : Captured home keyring (keyring.store credential (keyring.cause home)) :=
        ⟨credential, held, rfl⟩
      refine ensures_bind (ensures_call ?_ (.inl rfl) (.inl rfl))
      unfold saveAuth
      split
      · exact ensures_fail (.inl rfl)
      · exact ensures_bind (ensures_perform (touch_ensures captured (.inr captured)) (.inl rfl)
          (.inr captured))

theorem captureLeftover_ensures (purpose : Purpose) :
    Ensures (captureLeftover purpose) keyring
      (fun _ next => (keyring.homes purpose = none ∧ next = keyring) ∨
        Captured (.manager purpose) keyring next)
      (fun next => next = keyring ∨ Captured (.manager purpose) keyring next) := by
  refine ensures_bind (ensures_get ?_)
  split
  · exact (capture_ensures (.manager purpose)).mono (fun _ _ captured => .inr captured)
      fun _ broken => broken
  · rename_i absent
    exact ensures_pure (.inl ⟨by simpa using absent, rfl⟩)

@[simp] theorem store_homes (cause : Cause) :
    (keyring.store credential cause).homes = keyring.homes := rfl

@[simp] theorem store_vault (cause : Cause) :
    (keyring.store credential cause).vault = some credential := rfl

@[simp] theorem store_issued (cause : Cause) :
    (keyring.store credential cause).issued = keyring.issued := rfl

@[simp] theorem write_homes :
    (keyring.write purpose credential).homes purpose = some credential := by
  simp [Keyring.write]

theorem rotate_of_none (absent : keyring.homes purpose = none) :
    keyring.rotate purpose = keyring := by
  simp [Keyring.rotate, absent]

theorem rotate_of_some (held : keyring.homes purpose = some credential) :
    keyring.rotate purpose =
      { keyring with
        homes := Function.update keyring.homes purpose
          (some { credential with issued := keyring.issued + 1 })
        issued := keyring.issued + 1 } := by
  simp [Keyring.rotate, held]

/-! ### A session -/

/-- What every change a session makes to the keyring keeps. -/
structure KeptBySession (purpose : Purpose) (Kept : Keyring → Prop) : Prop where
  capture : ∀ {keyring next}, Kept keyring → Captured (.manager purpose) keyring next → Kept next
  write : ∀ {keyring credential}, Kept keyring → keyring.vault = some credential →
    (keyring.homes purpose = none ∨ keyring.homes purpose = some credential) →
      Kept (keyring.write purpose credential)
  rotate : ∀ {keyring}, Kept keyring → Kept (keyring.rotate purpose)
  remove : ∀ {keyring}, Kept keyring → keyring.vault = keyring.homes purpose →
    Kept (keyring.remove purpose)

/-- The session's home holds the credential it used last, after some refreshes. -/
def Carries (purpose : Purpose) (refreshes : Nat) (keyring : Keyring) : Prop :=
  ∃ credential, keyring.homes purpose = some credential ∧
    (0 < refreshes → credential.issued = keyring.issued)

/-- And the vault holds it too. -/
def Saved (purpose : Purpose) (refreshes : Nat) (keyring : Keyring) : Prop :=
  Carries purpose refreshes keyring ∧ keyring.vault = keyring.homes purpose

/-- The vault holds the credential that a session used last, and its home nothing else. -/
structure Vaulted (purpose : Purpose) (refreshes : Nat) (keyring : Keyring) : Prop where
  stored : ∃ credential, keyring.vault = some credential ∧
    (0 < refreshes → credential.issued = keyring.issued)
  home : keyring.homes purpose = none ∨ keyring.homes purpose = keyring.vault

theorem Saved.vaulted {refreshes : Nat} (saved : Saved purpose refreshes keyring) :
    Vaulted purpose refreshes keyring := by
  obtain ⟨⟨credential, held, latest⟩, same⟩ := saved
  exact ⟨⟨credential, same.trans held, latest⟩, .inr same.symm⟩

theorem Vaulted.remove {refreshes : Nat} (vaulted : Vaulted purpose refreshes keyring) :
    Vaulted purpose refreshes (keyring.remove purpose) :=
  ⟨vaulted.stored, .inl (by simp [Keyring.remove])⟩

theorem Captured.saved {refreshes : Nat} (captured : Captured (.manager purpose) keyring next)
    (holds : Carries purpose refreshes keyring) : Saved purpose refreshes next := by
  obtain ⟨credential, held, rfl⟩ := captured
  exact ⟨holds, held.symm⟩

section Session

variable (keeps : KeptBySession purpose Kept) (kept : Kept keyring)

include keeps kept

theorem materialize_ensures : Ensures (materialize purpose) keyring
    (fun _ next => Kept next ∧ Carries purpose 0 next) Kept := by
  refine ensures_bind ((captureLeftover_ensures purpose).mono ?_ ?_)
  · intro _ middle left
    have keptMiddle : Kept middle := by
      rcases left with ⟨-, rfl⟩ | captured
      · exact kept
      · exact keeps.capture kept captured
    refine ensures_bind (ensures_call ?_ keptMiddle keptMiddle)
    cases stored : middle.vault with
    | none => exact ensures_fail keptMiddle
    | some credential =>
        have written : Kept (middle.write purpose credential) := by
          refine keeps.write keptMiddle stored ?_
          rcases left with ⟨absent, rfl⟩ | ⟨captured, held, rfl⟩
          · exact .inl absent
          · exact .inr (held.trans stored)
        have holds : Carries purpose 0 (middle.write purpose credential) :=
          ⟨credential, write_homes, fun impossible => (nomatch impossible)⟩
        refine ensures_bind (touch_ensures ?_ keptMiddle)
        refine ensures_bind (ensures_perform ?_ keptMiddle written)
        exact touch_ensures ⟨written, holds⟩ written
  · rintro next (rfl | captured)
    · exact kept
    · exact keeps.capture kept captured

theorem rotations_ensures {before : Nat} (holds : Carries purpose before keyring) (count : Nat) :
    Ensures (rotations purpose count) keyring
      (fun _ next => Kept next ∧ Carries purpose (before + count) next)
      (fun next => Kept next ∧ ∃ done, Carries purpose done next) := by
  induction count generalizing keyring before with
  | zero => exact touch_ensures ⟨kept, holds⟩ ⟨kept, before, holds⟩
  | succ count inductionHypothesis =>
      have rotated : Carries purpose (before + 1) (keyring.rotate purpose) := by
        obtain ⟨credential, held, -⟩ := holds
        rw [rotate_of_some held]
        exact ⟨{ credential with issued := keyring.issued + 1 }, by simp, fun _ => rfl⟩
      have keptRotated := keeps.rotate kept
      refine ensures_bind (ensures_perform ?_ ⟨kept, before, holds⟩ ⟨keptRotated, _, rotated⟩)
      have rest := inductionHypothesis keptRotated rotated
      rwa [Nat.add_assoc, Nat.add_comm 1 count] at rest

theorem manage_ensures (starting working : Nat) :
    Ensures (manage purpose starting working) keyring
      (fun _ next => Kept next ∧ Saved purpose (starting + working) next) Kept := by
  refine ensures_bind ((materialize_ensures keeps kept).mono ?_ fun _ broken => broken)
  rintro - opened ⟨keptOpened, holds⟩
  refine ensures_bind ((rotations_ensures keeps keptOpened holds starting).mono ?_
    fun _ broken => broken.1)
  rintro - started ⟨keptStarted, held⟩
  rw [Nat.zero_add] at held
  have operation := rotations_ensures keeps keptStarted held working
  have caught : Ensures (rotations purpose working).caught started
      (fun result worked => Kept worked ∧ ∃ done, Carries purpose done worked ∧
        (result = .ok () → done = starting + working)) Kept := by
    refine ensures_caught fun fates => ?_
    have ran := operation fates
    match (rotations purpose working).run started fates, ran with
    | (.done (), worked, _), ran => exact ⟨ran.1, _, ran.2, fun _ => rfl⟩
    | (.failed _, worked, _), ran =>
        obtain ⟨keptWorked, done, heldWorked⟩ := ran
        exact ⟨keptWorked, done, heldWorked, fun succeeded => (nomatch succeeded)⟩
    | (.stopped, worked, _), ran => exact ran.1
  refine ensures_bind (caught.mono ?_ fun _ broken => broken)
  rintro result worked ⟨keptWorked, done, heldWorked, all⟩
  refine ensures_bind ((capture_ensures (.manager purpose)).mono ?_ ?_)
  · intro _ captured isCaptured
    have keptCaptured := keeps.capture keptWorked isCaptured
    have saved := isCaptured.saved heldWorked
    cases result with
    | error failure => exact ensures_fail keptCaptured
    | ok value => exact ensures_pure ⟨keptCaptured, all rfl ▸ saved⟩
  · rintro captured (rfl | isCaptured)
    · exact keptWorked
    · exact keeps.capture keptWorked isCaptured

/-- A session keeps what its changes keep; if it succeeds the vault holds what it used last. -/
theorem withSession_ensures (starting working : Nat) :
    Ensures (withSession purpose starting working) keyring
      (fun _ next => Kept next ∧ Vaulted purpose (starting + working) next) Kept := by
  have managed : Ensures (manage purpose starting working).caught keyring
      (fun result next => Kept next ∧
        (result = .ok () → Saved purpose (starting + working) next)) Kept := by
    refine ensures_caught fun fates => ?_
    have ran := manage_ensures keeps kept starting working fates
    match (manage purpose starting working).run keyring fates, ran with
    | (.done (), _, _), ran => exact ⟨ran.1, fun _ => ran.2⟩
    | (.failed _, _, _), ran => exact ⟨ran, fun succeeded => (nomatch succeeded)⟩
    | (.stopped, _, _), ran => exact ran
  refine ensures_bind (managed.mono ?_ fun _ broken => broken)
  rintro result middle ⟨keptMiddle, saved⟩
  have ends : ∀ {left : Keyring}, Kept left →
      (result = .ok () → Vaulted purpose (starting + working) left) →
      Ensures (rethrow result) left
        (fun _ next => Kept next ∧ Vaulted purpose (starting + working) next) Kept := by
    intro left keptLeft holds
    cases result with
    | ok value => exact ensures_pure ⟨keptLeft, holds rfl⟩
    | error failure => exact ensures_fail keptLeft
  have captured : Ensures (capture (.manager purpose)).caught middle
      (fun captured next => Kept next ∧ (captured = .ok () → next.vault = next.homes purpose) ∧
        (result = .ok () → Saved purpose (starting + working) next)) Kept := by
    refine ensures_caught fun fates => ?_
    have ran := @capture_ensures middle (.manager purpose) fates
    have fails : ∀ {next : Keyring}, next = middle ∨ Captured (.manager purpose) middle next →
        Kept next ∧ (result = .ok () → Saved purpose (starting + working) next) := by
      rintro next (rfl | isCaptured)
      · exact ⟨keptMiddle, saved⟩
      · exact ⟨keeps.capture keptMiddle isCaptured, fun ok => isCaptured.saved (saved ok).1⟩
    match (capture (.manager purpose)).run middle fates, ran with
    | (.done (), next, _), ran =>
        obtain ⟨keptNext, savedNext⟩ := fails (.inr ran)
        obtain ⟨credential, held, rfl⟩ := ran
        exact ⟨keptNext, fun _ => held.symm, savedNext⟩
    | (.failed _, next, _), ran =>
        exact ⟨(fails ran).1, fun succeeded => (nomatch succeeded), (fails ran).2⟩
    | (.stopped, next, _), ran => exact (fails ran).1
  refine ensures_bind (captured.mono ?_ fun _ broken => broken)
  rintro saves left ⟨keptLeft, same, savedLeft⟩
  cases saves with
  | error failure =>
      exact ensures_bind (ensures_pure (ends keptLeft fun ok => (savedLeft ok).vaulted))
  | ok value =>
      have removed := keeps.remove keptLeft (same rfl)
      exact ensures_bind (ensures_perform (ends removed fun ok => (savedLeft ok).vaulted.remove)
        keptLeft removed)

end Session

/-! ### The vault never regresses on its own -/

/-- Every change to an older credential has a cause of its own; credentials are numbered as
they are issued, and what the running session wrote is no older than the vault's. -/
structure Sound (keyring : Keyring) : Prop where
  writes : ∀ write ∈ keyring.writes, write.regresses = true →
    write.cause = .leftover ∨ write.cause = .restored
  vault : ∀ stored, keyring.vault = some stored → stored.issued ≤ keyring.issued
  homes : ∀ purpose held, keyring.homes purpose = some held → held.issued ≤ keyring.issued
  active : ∀ purpose held stored, keyring.active = some purpose →
    keyring.homes purpose = some held → keyring.vault = some stored → stored.issued ≤ held.issued

/-- A sound keyring in which only one home may be the running session's. -/
structure SoundIn (purpose : Purpose) (floor : Nat) (keyring : Keyring) : Prop where
  sound : Sound keyring
  turn : ∀ other, keyring.active = some other → other = purpose
  floor : floor ≤ keyring.issued

/-- A credential that is no older than the vault's may take its place, whatever the cause. -/
theorem Sound.store (sound : Sound keyring) (cause : Cause)
    (bounded : credential.issued ≤ keyring.issued)
    (newer : cause = .leftover ∨ ∀ stored, keyring.vault = some stored →
      stored.issued ≤ credential.issued)
    (active : ∀ purpose held, keyring.active = some purpose → keyring.homes purpose = some held →
      credential.issued ≤ held.issued) : Sound (keyring.store credential cause) := by
  refine ⟨fun write member regresses => ?_, fun stored found => ?_, sound.homes,
    fun purpose held stored isActive atHome found => ?_⟩
  · rcases List.mem_append.mp member with old | new
    · exact sound.writes write old regresses
    · rw [List.mem_singleton.mp new] at regresses ⊢
      rcases newer with leftover | newer
      · exact .inl leftover
      · unfold Write.regresses at regresses
        cases stored : keyring.vault with
        | none => simp [stored] at regresses
        | some old =>
            have older : credential.issued < old.issued := by simpa [stored] using regresses
            exact absurd older (Nat.not_lt.mpr (newer old stored))
  · rw [← Option.some.inj found]
    exact bounded
  · rw [← Option.some.inj found]
    exact active purpose held isActive atHome

theorem SoundIn.keeps (purpose : Purpose) (floor : Nat) :
    KeptBySession purpose (SoundIn purpose floor) where
  capture := by
    rintro keyring next ⟨sound, turn, reached⟩ ⟨credential, held, rfl⟩
    refine ⟨sound.store _ (sound.homes purpose credential held) ?_ ?_, turn, reached⟩
    · dsimp only [Keyring.cause]
      by_cases active : keyring.active = some purpose
      · rw [if_pos active]
        exact .inr fun stored => sound.active purpose credential stored active held
      · rw [if_neg active]
        exact .inl rfl
    · intro other atHome isActive found
      obtain rfl := turn other isActive
      obtain rfl := Option.some.inj (held.symm.trans found)
      exact Nat.le_refl _
  write := by
    rintro keyring credential ⟨sound, turn, reached⟩ stored -
    refine ⟨⟨sound.writes, sound.vault, fun other held found => ?_, ?_⟩, ?_, reached⟩
    · by_cases same : other = purpose
      · subst same
        rw [write_homes] at found
        exact Option.some.inj found ▸ sound.vault credential stored
      · exact sound.homes other held (by simpa [Keyring.write, same] using found)
    · intro other held kept isActive atHome found
      obtain rfl := Option.some.inj isActive
      rw [write_homes] at atHome
      rw [← Option.some.inj atHome, ← Option.some.inj (stored.symm.trans found)]
    · exact fun other isActive => (Option.some.inj isActive).symm
  rotate := by
    rintro keyring ⟨sound, turn, reached⟩
    cases held : keyring.homes purpose with
    | none =>
        rw [rotate_of_none held]
        exact ⟨sound, turn, reached⟩
    | some credential =>
        rw [rotate_of_some held]
        refine ⟨⟨sound.writes, fun stored found => Nat.le_succ_of_le (sound.vault stored found),
          fun other kept found => ?_, fun other kept stored isActive atHome found => ?_⟩, turn,
          Nat.le_succ_of_le reached⟩
        · by_cases same : other = purpose
          · subst same
            obtain rfl : _ = kept := by simpa using found
            exact Nat.le_refl _
          · exact Nat.le_succ_of_le (sound.homes other kept (by simpa [same] using found))
        · obtain rfl := turn other isActive
          obtain rfl : _ = kept := by simpa using atHome
          exact Nat.le_succ_of_le (sound.vault stored found)
  remove := by
    rintro keyring ⟨sound, turn, reached⟩ -
    refine ⟨⟨sound.writes, sound.vault, fun other held found => ?_,
      fun _ _ _ isActive => (nomatch isActive)⟩, fun _ isActive => (nomatch isActive), reached⟩
    by_cases same : other = purpose
    · simp [Keyring.remove, same] at found
    · exact sound.homes other held (by simpa [Keyring.remove, same] using found)

/-- No session has written a home. -/
theorem Sound.settle (sound : Sound keyring) : Sound keyring.settle :=
  ⟨sound.writes, sound.vault, sound.homes, fun _ _ _ isActive => nomatch isActive⟩

theorem Sound.session (sound : Sound keyring) (purpose : Purpose) (starting working : Nat)
    (fates : List Fate) : Sound ((withSession purpose starting working).run keyring.settle fates).2.1 :=
  (((withSession_ensures (SoundIn.keeps purpose 0)
      ⟨sound.settle, fun _ isActive => (nomatch isActive), Nat.zero_le _⟩ starting working).mono
    (fun _ _ ended => ended.1.sound) fun _ broken => broken.sound).leaves fates)

theorem Sound.restore (sound : Sound keyring) {previous : Option Credential}
    (bounded : ∀ stored, previous = some stored → stored.issued ≤ keyring.issued) :
    Sound (keyring.restore previous) := by
  refine ⟨fun write member regresses => ?_, bounded, sound.homes,
    fun _ _ _ isActive => nomatch isActive⟩
  rcases List.mem_append.mp member with old | new
  · exact sound.writes write old regresses
  · rw [List.mem_singleton.mp new]
    exact .inr rfl

theorem Sound.signIn (sound : Sound keyring) (identity : Identity) (starting working : Nat)
    (fates : List Fate) :
    Sound ((adopt starting working).run (keyring.settle.authorize identity) fates).2.1 := by
  have authorized : Sound (keyring.settle.authorize identity) :=
    ⟨sound.writes, fun stored found => Nat.le_succ_of_le (sound.vault stored found),
      fun purpose held found => Nat.le_succ_of_le (sound.homes purpose held found),
      fun _ _ _ isActive => nomatch isActive⟩
  have adopted : Ensures (adopt starting working) (keyring.settle.authorize identity)
      (fun _ next => Sound next) Sound := by
    refine ensures_bind (ensures_call ?_ authorized authorized)
    have signedIn : ∀ {next : Keyring},
        Captured .login (keyring.settle.authorize identity) next → Sound next := by
      rintro next ⟨credential, held, rfl⟩
      obtain rfl := Option.some.inj held
      refine authorized.store _ (Nat.le_refl _) (.inr fun stored found => ?_) fun _ _ isActive => nomatch isActive
      exact Nat.le_succ_of_le (sound.vault stored found)
    refine ensures_bind ((capture_ensures .login).mono ?_ ?_)
    · intro _ middle captured
      have soundMiddle := signedIn captured
      obtain ⟨credential, -, rfl⟩ := captured
      have kept := SoundIn.keeps .monitor (keyring.issued + 1)
      have start : SoundIn .monitor (keyring.issued + 1)
          ((keyring.settle.authorize identity).store credential
            ((keyring.settle.authorize identity).cause .login)) :=
        ⟨soundMiddle, fun _ isActive => (nomatch isActive), (Nat.le_refl _)⟩
      have refreshed : Ensures (refreshAccount starting working) _ (fun _ next =>
          SoundIn .monitor (keyring.issued + 1) next) (SoundIn .monitor (keyring.issued + 1)) :=
        ensures_bind (touch_ensures ((withSession_ensures kept start starting working).mono
          (fun _ _ ended => ended.1) fun _ broken => broken) start)
      refine ensures_bind (refreshed.caught.mono ?_ fun _ broken => broken.sound)
      intro result last ended
      cases result with
      | ok value => exact ensures_pure ended.sound
      | error failure =>
          have restored : Sound (last.restore keyring.vault) :=
            ended.sound.restore fun stored found =>
              (Nat.le_succ_of_le (sound.vault stored found)).trans ended.floor
          exact ensures_bind (ensures_perform (ensures_fail restored) ended.sound restored)
    · rintro next (rfl | captured)
      · exact authorized
      · exact signedIn captured
  exact adopted.leaves fates

/-- A restart takes what every home left. -/
theorem Sound.restart (sound : Sound keyring) (fates : List Fate) :
    Sound (recoverSessions.run keyring.settle fates).2.1 := by
  have recovered : ∀ {purpose : Purpose} {keyring : Keyring}, Sound keyring → keyring.active = none →
      Ensures (recoverHome purpose) keyring (fun _ next => Sound next ∧ next.active = none)
        (fun next => Sound next ∧ next.active = none) := by
    intro purpose keyring sound inactive
    have captured : ∀ {next : Keyring}, Captured (.manager purpose) keyring next →
        Sound next ∧ next.active = none := by
      intro next captured
      have kept := (SoundIn.keeps purpose 0).capture
        ⟨sound, fun other isActive => by simp [inactive] at isActive, Nat.zero_le _⟩ captured
      obtain ⟨credential, -, rfl⟩ := captured
      exact ⟨kept.sound, inactive⟩
    refine ensures_bind ((captureLeftover_ensures purpose).mono ?_ ?_)
    · intro _ middle left
      have soundMiddle : Sound middle ∧ middle.active = none := by
        rcases left with ⟨-, rfl⟩ | isCaptured
        · exact ⟨sound, inactive⟩
        · exact captured isCaptured
      have removed : Sound (middle.remove purpose) := by
        refine ⟨soundMiddle.1.writes, soundMiddle.1.vault, fun other held found => ?_,
          fun _ _ _ isActive => nomatch isActive⟩
        by_cases same : other = purpose
        · simp [Keyring.remove, same] at found
        · exact soundMiddle.1.homes other held (by simpa [Keyring.remove, same] using found)
      exact ensures_perform ⟨removed, rfl⟩ soundMiddle ⟨removed, rfl⟩
    · rintro next (rfl | isCaptured)
      · exact ⟨sound, inactive⟩
      · exact captured isCaptured
  have both : Ensures recoverSessions keyring.settle (fun _ next => Sound next ∧ next.active = none)
      (fun next => Sound next ∧ next.active = none) :=
    ensures_bind ((recovered sound.settle rfl).mono
      (fun _ _ first => recovered first.1 first.2) fun _ broken => broken)
  exact (both.leaves fates).1

theorem Sound.run (sound : Sound keyring) (activity : Activity) :
    Sound (activity.run keyring).2 := by
  cases activity with
  | session purpose starting working fates => exact sound.session purpose starting working fates
  | signIn identity starting working fates => exact sound.signIn identity starting working fates
  | restart fates => exact sound.restart fates

/-! ### The credential issued last -/

/-- When the vault's credential was issued. -/
def Keyring.newest (keyring : Keyring) : Nat := (keyring.vault.map Credential.issued).getD 0

/-- At most one home is left, which holds the credential issued last; if none is, the vault
holds it. -/
structure SettledIn (purpose : Purpose) (keyring : Keyring) : Prop where
  home : ∀ held, keyring.homes purpose = some held → held.issued = keyring.issued
  newest : keyring.homes purpose = none → keyring.newest = keyring.issued
  others : ∀ other, other ≠ purpose → keyring.homes other = none

def Settled (keyring : Keyring) : Prop := ∃ purpose, SettledIn purpose keyring

theorem SettledIn.keeps (purpose : Purpose) : KeptBySession purpose (SettledIn purpose) where
  capture := by
    rintro keyring next settled ⟨credential, held, rfl⟩
    refine ⟨settled.home, fun absent => ?_, settled.others⟩
    exact nomatch held.symm.trans absent
  write := by
    rintro keyring credential settled stored left
    have issued : credential.issued = keyring.issued := by
      rcases left with absent | held
      · simpa [Keyring.newest, stored] using settled.newest absent
      · exact settled.home credential held
    refine ⟨fun held found => ?_, fun absent => ?_, fun other different => ?_⟩
    · rw [write_homes] at found
      rw [← Option.some.inj found, issued]
      rfl
    · rw [write_homes] at absent
      exact nomatch absent
    · simpa [Keyring.write, different] using settled.others other different
  rotate := by
    rintro keyring settled
    cases held : keyring.homes purpose with
    | none =>
        rw [rotate_of_none held]
        exact settled
    | some credential =>
        rw [rotate_of_some held]
        refine ⟨fun kept found => ?_, fun absent => ?_, fun other different => ?_⟩
        · obtain rfl : _ = kept := by simpa using found
          rfl
        · simp at absent
        · simpa [different] using settled.others other different
  remove := by
    rintro keyring settled same
    refine ⟨fun held found => ?_, fun _ => ?_, fun other different => ?_⟩
    · simp [Keyring.remove] at found
    · change keyring.newest = keyring.issued
      cases held : keyring.homes purpose with
      | none => exact settled.newest held
      | some credential =>
          rw [Keyring.newest, same, held]
          exact settled.home credential held
    · simpa [Keyring.remove, different] using settled.others other different

theorem SettledIn.of_empty (empty : ∀ purpose, keyring.homes purpose = none)
    (newest : keyring.newest = keyring.issued) (purpose : Purpose) : SettledIn purpose keyring :=
  ⟨fun _ found => (nomatch (empty purpose).symm.trans found), fun _ => newest,
    fun other _ => empty other⟩

/-- A session whose other home is empty may start from a settled keyring. -/
theorem Settled.for (settled : Settled keyring)
    (others : ∀ other, other ≠ purpose → keyring.homes other = none) :
    SettledIn purpose keyring.settle := by
  obtain ⟨left, settledIn⟩ := settled
  by_cases same : left = purpose
  · subst same
    exact ⟨settledIn.home, settledIn.newest, settledIn.others⟩
  · have absent := others left same
    refine ⟨fun _ found => ?_, fun _ => settledIn.newest absent, others⟩
    exact nomatch (settledIn.others purpose (Ne.symm same)).symm.trans found

/-- A session that succeeds leaves the credential issued last in the vault. -/
theorem SettledIn.stored {refreshes : Nat} (settled : SettledIn purpose keyring)
    (vaulted : Vaulted purpose refreshes keyring) :
    ∃ credential, keyring.vault = some credential ∧ credential.issued = keyring.issued := by
  obtain ⟨credential, stored, -⟩ := vaulted.stored
  refine ⟨credential, stored, ?_⟩
  rcases vaulted.home with absent | same
  · simpa [Keyring.newest, stored] using settled.newest absent
  · exact settled.home credential (same.trans stored)

theorem Settled.session (settled : Settled keyring) (starting working : Nat)
    (others : ∀ other, other ≠ purpose → keyring.homes other = none) :
    Ensures (withSession purpose starting working) keyring.settle
      (fun _ next => SettledIn purpose next ∧ Vaulted purpose (starting + working) next)
      (SettledIn purpose) :=
  withSession_ensures (SettledIn.keeps purpose) (settled.for others) starting working

/-- A sign-in that succeeds leaves a settled keyring. -/
theorem Settled.signIn (empty : ∀ purpose, keyring.homes purpose = none) (identity : Identity)
    (starting working : Nat) :
    Ensures (adopt starting working) (keyring.settle.authorize identity)
      (fun _ next => SettledIn .monitor next) fun _ => True := by
  refine ensures_bind (ensures_call ?_ trivial trivial)
  refine ensures_bind ((capture_ensures .login).mono ?_ fun _ _ => trivial)
  rintro _ middle ⟨credential, held, rfl⟩
  obtain rfl := Option.some.inj held
  have start : SettledIn .monitor ((keyring.settle.authorize identity).store
      ⟨identity, keyring.settle.issued + 1⟩ ((keyring.settle.authorize identity).cause .login)) :=
    ⟨fun _ found => (nomatch (empty .monitor).symm.trans found), fun _ => rfl,
      fun other _ => empty other⟩
  have refreshed : Ensures (refreshAccount starting working) _
      (fun _ next => SettledIn .monitor next) (SettledIn .monitor) :=
    ensures_bind (touch_ensures ((withSession_ensures (SettledIn.keeps .monitor) start starting
      working).mono (fun _ _ ended => ended.1) fun _ broken => broken) start)
  refine ensures_bind (refreshed.caught.mono ?_ fun _ _ => trivial)
  intro result last ended
  cases result with
  | ok value => exact ensures_pure ended
  | error failure => exact ensures_bind (ensures_perform (ensures_fail trivial) trivial trivial)

theorem Settled.recoverHome (settled : SettledIn purpose keyring) (other : Purpose) :
    Ensures (recoverHome other) keyring (fun _ next => SettledIn purpose next)
      (SettledIn purpose) := by
  by_cases same : other = purpose
  · subst same
    have keeps := SettledIn.keeps other
    refine ensures_bind ((captureLeftover_ensures other).mono ?_ ?_)
    · intro _ middle left
      have kept : SettledIn other middle ∧ (middle.homes other = none ∨
          middle.vault = middle.homes other) := by
        rcases left with ⟨absent, rfl⟩ | captured
        · exact ⟨settled, .inl absent⟩
        · refine ⟨keeps.capture settled captured, .inr ?_⟩
          obtain ⟨credential, held, rfl⟩ := captured
          exact held.symm
      have removed : SettledIn other (middle.remove other) := by
        rcases kept.2 with absent | held
        · have emptied : ∀ purpose, (middle.remove other).homes purpose = none := by
            intro purpose
            by_cases here : purpose = other
            · simp [Keyring.remove, here]
            · simpa [Keyring.remove, here] using kept.1.others purpose here
          exact SettledIn.of_empty emptied (kept.1.newest absent) other
        · exact keeps.remove kept.1 held
      exact ensures_perform removed kept.1 removed
    · rintro next (rfl | captured)
      · exact settled
      · exact keeps.capture settled captured
  · have absent := settled.others other same
    have unchanged : (keyring.remove other).homes = keyring.homes := by
      simp [Keyring.remove, ← absent]
    have removed : SettledIn purpose (keyring.remove other) := by
      refine ⟨fun held found => settled.home held ?_, fun found => settled.newest ?_,
        fun place different => ?_⟩
      · rwa [unchanged] at found
      · rwa [unchanged] at found
      · rw [unchanged]
        exact settled.others place different
    refine ensures_bind ((captureLeftover_ensures other).mono ?_ ?_)
    · rintro _ middle (⟨-, rfl⟩ | ⟨credential, held, -⟩)
      · exact ensures_perform removed settled removed
      · exact nomatch held.symm.trans absent
    · rintro next (rfl | ⟨credential, held, -⟩)
      · exact settled
      · exact nomatch held.symm.trans absent

theorem Settled.run (settled : Settled keyring) {activity : Activity}
    (orderly : Orderly keyring activity) : Settled (activity.run keyring).2 := by
  cases activity with
  | session purpose starting working fates =>
      exact ⟨purpose, ((settled.session starting working orderly).mono
        (fun _ _ ended => ended.1) fun _ broken => broken).leaves fates⟩
  | signIn identity starting working fates =>
      have signedIn := Settled.signIn orderly.1 identity starting working fates
      have ended := orderly.2
      unfold Activity.run at ended ⊢
      dsimp only at ended ⊢
      match ran : (adopt starting working).run (keyring.settle.authorize identity) fates with
      | (.done (), next, rest) =>
          rw [ran] at signedIn
          exact ⟨.monitor, signedIn⟩
      | (.failed failure, next, rest) =>
          rw [ran] at ended
          exact nomatch ended
      | (.stopped, next, rest) =>
          rw [ran] at ended
          exact nomatch ended
  | restart fates =>
      obtain ⟨purpose, settledIn⟩ := settled
      have start : SettledIn purpose keyring.settle :=
        ⟨settledIn.home, settledIn.newest, settledIn.others⟩
      have both : Ensures recoverSessions keyring.settle (fun _ next => SettledIn purpose next)
          (SettledIn purpose) :=
        ensures_bind ((Settled.recoverHome start .monitor).mono
          (fun _ _ first => Settled.recoverHome first .modelDiscovery) fun _ broken => broken)
      exact ⟨purpose, both.leaves fates⟩

/-! ### Runs -/

theorem Sound.after (sound : Sound keyring) (activities : List Activity) :
    Sound (keyring.after activities) := by
  induction activities generalizing keyring with
  | nil => exact sound
  | cons head tail inductionHypothesis => exact inductionHypothesis (sound.run head)

theorem Settled.after (settled : Settled keyring) {activities : List Activity}
    (orderly : Throughout Activity.step Orderly keyring activities) :
    Settled (keyring.after activities) := by
  induction activities generalizing keyring with
  | nil => exact settled
  | cons head tail inductionHypothesis =>
      exact inductionHypothesis (settled.run orderly.1) (orderly.2 _ rfl)

theorem Sound.empty : Sound {} :=
  ⟨fun _ member => (nomatch member), fun _ found => (nomatch found), fun _ _ found => (nomatch found),
    fun _ _ _ isActive => nomatch isActive⟩

theorem Settled.empty : Settled {} := ⟨.monitor, SettledIn.of_empty (fun _ => rfl) rfl .monitor⟩

def owner : Identity := ⟨"account", "subject"⟩

end Cairn.Accounts
