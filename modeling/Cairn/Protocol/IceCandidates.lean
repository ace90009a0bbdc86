import Cairn.Library.IpAddresses

/-!
Owns the ICE candidates of `protocol/direct.rs`: their syntax, the classification of their
addresses, and that splitting a candidate at blanks and splitting it at white space find the
same address in it.
-/

set_option autoImplicit false

namespace Cairn.Protocol

open Cairn.Library.TextLists
open Cairn.Library.IpAddresses

/-! ### Values -/

/-- `token`. -/
def token (value : Text) (maximum : Nat) : Bool :=
  value ≠ [] && byteLength value ≤ maximum &&
    value.all fun char => char.isAlphanum || char == '+' || char == '/' || char == '-' || char == '_'

/-- `str::parse` into an unsigned integer below a limit. -/
def parseUnsigned (limit : Nat) (text : Text) : Option Nat :=
  let digits := match text with
    | '+' :: digits => digits
    | digits => digits
  if digits ≠ [] ∧ digits.all isDecimal ∧ decimal digits < limit then some (decimal digits) else none

/-- The addresses that a candidate may name: an IP address or a local name. -/
def candidateName (value : Text) : Bool :=
  (parseIpAddr value).isSome ||
    (".local".toList.isSuffixOf value && token (value.take (value.length - ".local".length)) 64)

/-- One extension of a candidate. -/
def candidateExtension (name value : Text) : Bool :=
  if name = "raddr".toList then candidateName value
  else if name = "rport".toList then (parseUnsigned (2 ^ 16) value).isSome
  else if name ∈ ["generation".toList, "network-id".toList, "network-cost".toList] then
    (parseUnsigned (2 ^ 32) value).isSome
  else if name = "ufrag".toList then token value 256
  else if name = "tcptype".toList then
    value ∈ ["active".toList, "passive".toList, "so".toList]
  else false

/-- The extensions of a candidate, in pairs. -/
def candidateExtensions : List Text → Bool
  | [] => true
  | [_] => false
  | name :: value :: rest => candidateExtension name value && candidateExtensions rest

/-- The words of a candidate. -/
def candidateWords : List Text → Bool
  | foundation :: component :: transport :: priority :: address :: port :: typ :: kind :: rest =>
    token foundation 32 && component = "1".toList &&
      transport ∈ ["udp".toList, "UDP".toList, "tcp".toList, "TCP".toList] &&
      (parseUnsigned (2 ^ 32) priority).isSome && candidateName address &&
      (parseUnsigned (2 ^ 16) port).isSome && typ = "typ".toList &&
      kind ∈ ["host".toList, "srflx".toList, "prflx".toList, "relay".toList] &&
      candidateExtensions rest
  | _ => false

/-- `candidate_syntax`. -/
def candidateSyntax (candidate : Text) : Bool :=
  if candidate = [] then true
  else if 1024 < byteLength candidate then false
  else match stripPrefix "candidate:".toList candidate with
    | none => false
    | some value => candidateWords (value.splitOn ' ')

/-! ### Destinations -/

/-- `usable_candidate_address`. -/
def usableCandidateAddress (ip : IpAddr) : Bool :=
  let ip : IpAddr := match ip with
    | .v6 address => match address.toIpv4Mapped with
      | some mapped => .v4 mapped
      | none => .v6 address
    | ip => ip
  match ip with
  | .v4 address => !address.isLoopback && !address.isLinkLocal && !address.isUnspecified &&
      !address.isMulticast && !address.isBroadcast
  | .v6 address => !address.isLoopback && !address.isUnicastLinkLocal && !address.isUnspecified &&
      !address.isMulticast

theorem isUnicast_of_usable {ip : IpAddr} (usable : usableCandidateAddress ip) : ip.isUnicast := by
  cases ip with
  | v4 address =>
      simp only [usableCandidateAddress, Bool.and_eq_true] at usable
      simp only [IpAddr.isUnicast, Bool.and_eq_true]
      exact ⟨⟨usable.1.1.2, usable.1.2⟩, usable.2⟩
  | v6 address =>
      cases maps : address.toIpv4Mapped with
      | some mapped => exact Ipv6.isUnicast_of_mapped maps
      | none =>
          simp only [usableCandidateAddress, maps, Bool.and_eq_true] at usable
          simp only [IpAddr.isUnicast, Bool.and_eq_true]
          exact ⟨usable.1.2, usable.2⟩

/-- `valid_candidate`. -/
def validCandidate (candidate : Text) : Bool :=
  candidateSyntax candidate && (candidate = [] ||
    match (splitAsciiWhitespace candidate)[4]? with
    | none => false
    | some value => match parseIpAddr value with
      | some ip => usableCandidateAddress ip
      | none => true)

/-- `usable_candidate`. -/
def usableCandidate (candidate : Text) : Bool :=
  match (splitAsciiWhitespace candidate)[4]? with
  | none => false
  | some value => match parseIpAddr value with
    | some ip => usableCandidateAddress ip
    | none => false

/-! ### Visible words -/

/-- ASCII characters that print: no white space of any kind. -/
def isVisible (char : Char) : Bool := 33 ≤ char.toNat && char.toNat ≤ 126

/-- A word without white space. -/
structure Visible (word : Text) : Prop where
  nonempty : word ≠ []
  each : ∀ char ∈ word, isVisible char

theorem le_iff_toNat {first second : Char} : first ≤ second ↔ first.toNat ≤ second.toNat := Iff.rfl

theorem isVisible_iff {char : Char} : isVisible char ↔ 33 ≤ char.toNat ∧ char.toNat ≤ 126 := by
  simp [isVisible]

theorem isVisible_of_isAlphanum {char : Char} (alphanumeric : char.isAlphanum) : isVisible char := by
  rw [isVisible_iff]
  have ranges : ((decide (char.val ≥ 'A'.val ∧ char.val ≤ 'Z'.val) ||
      decide (char.val ≥ 'a'.val) && decide (char.val ≤ 'z'.val)) ||
        decide (char.val ≥ '0'.val) && decide (char.val ≤ '9'.val)) = true := alphanumeric
  simp only [Bool.or_eq_true, Bool.and_eq_true, decide_eq_true_eq, ge_iff_le,
    UInt32.le_iff_toNat_le] at ranges
  have code : char.toNat = char.val.toNat := rfl
  have upper : 'A'.val.toNat = 65 ∧ 'Z'.val.toNat = 90 := by decide
  have lower : 'a'.val.toNat = 97 ∧ 'z'.val.toNat = 122 := by decide
  have digit : '0'.val.toNat = 48 ∧ '9'.val.toNat = 57 := by decide
  omega

theorem isVisible_of_isDecimal {char : Char} (digit : isDecimal char) : isVisible char := by
  rw [isVisible_iff]
  simp only [isDecimal, Bool.and_eq_true, decide_eq_true_eq, le_iff_toNat] at digit
  have zero : '0'.toNat = 48 := rfl
  have nine : '9'.toNat = 57 := rfl
  omega

theorem isVisible_of_isHexadecimal {char : Char} (digit : isHexadecimal char) : isVisible char := by
  unfold isHexadecimal hexValue at digit
  split at digit
  · rename_i decimal
    exact isVisible_of_isDecimal decimal
  · rw [isVisible_iff]
    have codes : 'a'.toNat = 97 ∧ 'f'.toNat = 102 ∧ 'A'.toNat = 65 ∧ 'F'.toNat = 70 := by decide
    split at digit
    · rename_i lower
      simp only [Bool.and_eq_true, decide_eq_true_eq, le_iff_toNat] at lower
      omega
    · split at digit
      · rename_i upper
        simp only [Bool.and_eq_true, decide_eq_true_eq, le_iff_toNat] at upper
        omega
      · contradiction

theorem Visible.token {value : Text} {maximum : Nat} (accepted : token value maximum) :
    Visible value := by
  simp only [Protocol.token, Bool.and_eq_true, decide_eq_true_eq, List.all_eq_true, Bool.or_eq_true,
    beq_iff_eq, ne_eq] at accepted
  refine ⟨by simpa using accepted.1.1, fun char member => ?_⟩
  rcases accepted.2 char member with (((alphanumeric | rfl) | rfl) | rfl) | rfl
  · exact isVisible_of_isAlphanum alphanumeric
  · decide
  · decide
  · decide
  · decide

/-- Digits, perhaps behind a plus. -/
theorem Visible.unsigned {limit : Nat} {text : Text} (accepted : (parseUnsigned limit text).isSome) :
    Visible text := by
  have digits : ∀ digits : Text, digits ≠ [] → digits.all isDecimal = true → Visible digits :=
    fun digits nonempty each => ⟨nonempty, fun char member =>
      isVisible_of_isDecimal (List.all_eq_true.mp each char member)⟩
  unfold parseUnsigned at accepted
  dsimp only at accepted
  split at accepted
  · rename_i behind
    by_cases found : behind ≠ [] ∧ behind.all isDecimal = true ∧ decimal behind < limit
    · have shown := digits _ found.1 found.2.1
      refine ⟨List.cons_ne_nil _ _, fun char member => ?_⟩
      rcases List.mem_cons.mp member with rfl | later
      · decide
      · exact shown.each char later
    · rw [if_neg found] at accepted
      contradiction
  · by_cases found : text ≠ [] ∧ text.all isDecimal = true ∧ decimal text < limit
    · exact digits _ found.1 found.2.1
    · rw [if_neg found] at accepted
      contradiction

theorem isVisible_of_isAddressChar {char : Char} (used : isAddressChar char) : isVisible char := by
  rw [isAddressChar, Bool.or_eq_true, Bool.or_eq_true, beq_iff_eq, beq_iff_eq] at used
  rcases used with (digit | rfl) | rfl
  · exact isVisible_of_isHexadecimal digit
  · decide
  · decide

theorem Visible.ipAddr {text : Text} (parsed : (parseIpAddr text).isSome) : Visible text :=
  ⟨nonempty_of_parseIpAddr parsed, fun char member =>
    isVisible_of_isAddressChar (isAddressChar_of_parseIpAddr parsed char member)⟩

theorem Visible.append {first second : Text} (front : Visible first) (back : ∀ char ∈ second, isVisible char) :
    Visible (first ++ second) where
  nonempty := List.append_ne_nil_of_left_ne_nil front.nonempty second
  each := by
    intro char member
    rcases List.mem_append.mp member with inFirst | inSecond
    · exact front.each char inFirst
    · exact back char inSecond

/-- The two kinds of names. -/
theorem candidateName_cases {value : Text} (accepted : candidateName value) :
    (parseIpAddr value).isSome ∨ ∃ front, value = front ++ ".local".toList ∧ token front 64 := by
  unfold candidateName at accepted
  rcases Bool.or_eq_true _ _ |>.mp accepted with address | named
  · exact .inl address
  · obtain ⟨suffix, accepted⟩ := Bool.and_eq_true _ _ |>.mp named
    obtain ⟨front, rfl⟩ := List.isSuffixOf_iff_suffix.mp suffix
    have cut : (front ++ ".local".toList).take ((front ++ ".local".toList).length - ".local".length) =
        front := by
      rw [List.length_append, show ".local".toList.length = ".local".length from rfl,
        Nat.add_sub_cancel, List.take_left]
    rw [cut] at accepted
    exact .inr ⟨front, rfl, accepted⟩

theorem Visible.name {value : Text} (accepted : candidateName value) : Visible value := by
  rcases candidateName_cases accepted with address | ⟨front, rfl, tokens⟩
  · exact Visible.ipAddr address
  · exact (Visible.token tokens).append (List.all_eq_true.mp (by decide))

/-! ### Words of candidates -/

theorem Visible.ofMem {value : Text} {options : List Text} (member : value ∈ options)
    (shown : options.all fun option => option ≠ [] && option.all isVisible) : Visible value := by
  have found := List.all_eq_true.mp shown value member
  rw [Bool.and_eq_true, decide_eq_true_eq] at found
  exact ⟨found.1, List.all_eq_true.mp found.2⟩

theorem visible_of_candidateExtension {name value : Text} (accepted : candidateExtension name value) :
    Visible name ∧ Visible value := by
  unfold candidateExtension at accepted
  split at accepted
  · rename_i same
    exact ⟨.ofMem (List.mem_singleton.mpr same) (by decide), .name accepted⟩
  · split at accepted
    · rename_i same
      exact ⟨.ofMem (List.mem_singleton.mpr same) (by decide), .unsigned accepted⟩
    · split at accepted
      · rename_i same
        exact ⟨.ofMem same (by decide), .unsigned accepted⟩
      · split at accepted
        · rename_i same
          exact ⟨.ofMem (List.mem_singleton.mpr same) (by decide), .token accepted⟩
        · split at accepted
          · rename_i same
            exact ⟨.ofMem (List.mem_singleton.mpr same) (by decide),
              .ofMem (of_decide_eq_true accepted) (by decide)⟩
          · exact nomatch accepted

theorem visible_of_candidateExtensions {words : List Text} (accepted : candidateExtensions words) :
    ∀ word ∈ words, Visible word := by
  fun_induction candidateExtensions words with
  | case1 => exact fun word impossible => (nomatch impossible)
  | case2 => contradiction
  | case3 name value rest inductionHypothesis =>
      obtain ⟨pair, later⟩ := Bool.and_eq_true _ _ |>.mp accepted
      obtain ⟨nameShown, valueShown⟩ := visible_of_candidateExtension pair
      intro word member
      rcases List.mem_cons.mp member with rfl | member
      · exact nameShown
      · rcases List.mem_cons.mp member with rfl | member
        · exact valueShown
        · exact inductionHypothesis later word member

/-- No word of a candidate is empty or contains white space. -/
theorem visible_of_candidateWords {words : List Text} (accepted : candidateWords words) :
    ∀ word ∈ words, Visible word := by
  unfold candidateWords at accepted
  split at accepted
  · rename_i foundation component transport priority address port typ kind rest
    simp only [Bool.and_eq_true, decide_eq_true_eq] at accepted
    obtain ⟨⟨⟨⟨⟨⟨⟨⟨founded, one⟩, carried⟩, ranked⟩, named⟩, ported⟩, typed⟩, kinded⟩, extended⟩ :=
      accepted
    intro word member
    simp only [List.mem_cons] at member
    rcases member with rfl | rfl | rfl | rfl | rfl | rfl | rfl | rfl | member
    · exact .token founded
    · exact .ofMem (List.mem_singleton.mpr one) (by decide)
    · exact .ofMem carried (by decide)
    · exact .unsigned ranked
    · exact .name named
    · exact .unsigned ported
    · exact .ofMem (List.mem_singleton.mpr typed) (by decide)
    · exact .ofMem kinded (by decide)
    · exact visible_of_candidateExtensions extended word member
  · exact nomatch accepted

/-! ### One address -/

/-- A candidate that is not empty: its value has accepted words. -/
theorem words_of_candidateSyntax {candidate : Text} (accepted : candidateSyntax candidate)
    (nonempty : candidate ≠ []) : ∃ value, candidate = "candidate:".toList ++ value ∧
      candidateWords (value.splitOn ' ') := by
  unfold candidateSyntax at accepted
  rw [if_neg nonempty] at accepted
  split at accepted
  · exact nomatch accepted
  · split at accepted
    · exact nomatch accepted
    · rename_i value found
      exact ⟨value, stripPrefix_eq_some.mp found, accepted⟩

/-- The word at which an accepted candidate has its address. -/
theorem address_of_candidateWords {words : List Text} (accepted : candidateWords words) :
    ∃ address, words[4]? = some address ∧ candidateName address := by
  unfold candidateWords at accepted
  split at accepted
  · rename_i foundation component transport priority address port typ kind rest
    simp only [Bool.and_eq_true] at accepted
    exact ⟨address, rfl, accepted.1.1.1.1.2⟩
  · exact nomatch accepted

/-- The words between blanks of an accepted candidate, its start included, are visible. -/
theorem visible_of_candidate {value : Text} (accepted : candidateWords (value.splitOn ' ')) :
    ∀ word ∈ (value.splitOn ' ').modifyHead ("candidate:".toList ++ ·), Visible word := by
  have shown := visible_of_candidateWords accepted
  have start : Visible "candidate:".toList := ⟨by decide, List.all_eq_true.mp (by decide)⟩
  cases words : value.splitOn ' ' with
  | nil => exact fun word impossible => (nomatch impossible)
  | cons first rest =>
      rw [words] at shown
      intro word member
      rw [List.modifyHead_cons] at member
      rcases List.mem_cons.mp member with rfl | later
      · exact start.append (shown first List.mem_cons_self).each
      · exact shown word (List.mem_cons_of_mem _ later)

/-- An accepted candidate is split alike at blanks and at white space of any kind. -/
theorem splitOnP_of_candidateWords {space : Char → Bool} {value : Text} (blank : space ' ')
    (dark : ∀ char, isVisible char → space char = false)
    (accepted : candidateWords (value.splitOn ' ')) :
    ("candidate:".toList ++ value).splitOnP space =
      (value.splitOn ' ').modifyHead ("candidate:".toList ++ ·) := by
  have shown := visible_of_candidate accepted
  have split : ("candidate:".toList ++ value).splitOn ' ' =
      (value.splitOn ' ').modifyHead ("candidate:".toList ++ ·) :=
    splitOn_append_of_not_mem (by decide)
  rw [← split] at shown ⊢
  refine splitOnP_eq_splitOn blank fun char member white => ?_
  rcases mem_of_splitOn ' ' member with same | ⟨part, found, inside⟩
  · exact same
  · rw [dark char ((shown part found).each char inside)] at white
    exact nomatch white

/-- White space does not print. -/
theorem isAsciiWhitespace_of_isVisible (char : Char) (shown : isVisible char) :
    isAsciiWhitespace char = false := by
  rw [isVisible_iff] at shown
  rw [Bool.eq_false_iff]
  intro white
  simp only [isAsciiWhitespace, Bool.or_eq_true, beq_iff_eq] at white
  rcases white with (((rfl | rfl) | rfl) | rfl) | rfl
  · exact absurd shown (by decide)
  · exact absurd shown (by decide)
  · exact absurd shown (by decide)
  · exact absurd shown (by decide)
  · exact absurd shown (by decide)

/-- The address of an accepted candidate is what both splits find. -/
structure Addressed (candidate address : Text) : Prop where
  between : (splitAsciiWhitespace candidate)[4]? = some address
  spaced : ∃ value, candidate = "candidate:".toList ++ value ∧
    (value.splitOn ' ')[4]? = some address
  named : candidateName address

theorem Addressed.exists {candidate : Text} (accepted : candidateSyntax candidate)
    (nonempty : candidate ≠ []) : ∃ address, Addressed candidate address := by
  obtain ⟨value, rfl, words⟩ := words_of_candidateSyntax accepted nonempty
  obtain ⟨address, found, named⟩ := address_of_candidateWords words
  refine ⟨address, ?_, ⟨value, rfl, found⟩, named⟩
  rw [splitAsciiWhitespace, wordsBetween,
    splitOnP_of_candidateWords (by decide) isAsciiWhitespace_of_isVisible words,
    List.filter_eq_self.mpr fun word member => by
      simpa using (visible_of_candidate words word member).nonempty]
  cases parts : value.splitOn ' ' with
  | nil =>
      rw [parts] at found
      exact nomatch found
  | cons first rest =>
      rw [parts] at found
      exact found

/-- A candidate with accepted syntax and a usable address is valid. -/
theorem validCandidate_of_usable {candidate : Text} (accepted : candidateSyntax candidate)
    (usable : usableCandidate candidate) : validCandidate candidate := by
  unfold usableCandidate at usable
  unfold validCandidate
  rw [accepted, Bool.true_and, Bool.or_eq_true]
  refine .inr ?_
  cases found : (splitAsciiWhitespace candidate)[4]? with
  | none =>
      rw [found] at usable
      exact nomatch usable
  | some address =>
      rw [found] at usable
      dsimp only at usable ⊢
      cases parsed : parseIpAddr address with
      | none => rfl
      | some ip =>
          rw [parsed] at usable
          exact usable

/-- A usable candidate has a numeric address that may be a destination. -/
theorem usableCandidate_iff {candidate address : Text} (addressed : Addressed candidate address) :
    usableCandidate candidate ↔
      ∃ ip, parseIpAddr address = some ip ∧ usableCandidateAddress ip := by
  unfold usableCandidate
  rw [addressed.between]
  dsimp only
  cases parsed : parseIpAddr address with
  | none => exact ⟨fun impossible => (nomatch impossible), fun ⟨_, impossible, _⟩ => (nomatch impossible)⟩
  | some ip =>
      constructor
      · exact fun usable => ⟨ip, rfl, usable⟩
      · rintro ⟨_, same, usable⟩
        cases same
        exact usable

end Cairn.Protocol
