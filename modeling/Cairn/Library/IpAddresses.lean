import Cairn.Library.TextLists

/-!
Owns IP addresses: their binary forms, the classes of addresses that a peer may not be
reached at, the texts that stand for them, and the shortest text of an IPv6 address.

Parsing accepts what `IpAddr::from_str` accepts.
-/

set_option autoImplicit false

namespace Cairn.Library.IpAddresses

open Cairn.Library.TextLists

/-! ### Addresses -/

/-- An IPv4 address, octet by octet. -/
structure Ipv4 where
  octets : List (Fin 256)
  four : octets.length = 4
deriving DecidableEq

/-- An IPv6 address, segment by segment. -/
structure Ipv6 where
  segments : List (Fin 65536)
  eight : segments.length = 8
deriving DecidableEq

inductive IpAddr where
  | v4 (address : Ipv4)
  | v6 (address : Ipv6)
deriving DecidableEq

namespace Ipv4

/-- The octet at a position. -/
def octet (address : Ipv4) (index : Nat) : Nat := ((address.octets[index]?).map Fin.val).getD 0

/-- `is_loopback`: 127.0.0.0/8. -/
def isLoopback (address : Ipv4) : Bool := address.octet 0 == 127

/-- `is_link_local`: 169.254.0.0/16. -/
def isLinkLocal (address : Ipv4) : Bool := address.octet 0 == 169 && address.octet 1 == 254

/-- `is_unspecified`: 0.0.0.0. -/
def isUnspecified (address : Ipv4) : Bool := address.octets.all (·.val == 0)

/-- `is_multicast`: 224.0.0.0/4. -/
def isMulticast (address : Ipv4) : Bool := 224 ≤ address.octet 0 && address.octet 0 ≤ 239

/-- `is_broadcast`: 255.255.255.255. -/
def isBroadcast (address : Ipv4) : Bool := address.octets.all (·.val == 255)

end Ipv4

namespace Ipv6

/-- The segment at a position. -/
def segment (address : Ipv6) (index : Nat) : Nat := ((address.segments[index]?).map Fin.val).getD 0

/-- `is_loopback`: ::1. -/
def isLoopback (address : Ipv6) : Bool := address.segments.map Fin.val == [0, 0, 0, 0, 0, 0, 0, 1]

/-- `is_unspecified`: ::. -/
def isUnspecified (address : Ipv6) : Bool := address.segments.all (·.val == 0)

/-- `is_unicast_link_local`: fe80::/10. -/
def isUnicastLinkLocal (address : Ipv6) : Bool := address.segment 0 / 64 == 0xfe80 / 64

/-- `is_multicast`: ff00::/8. -/
def isMulticast (address : Ipv6) : Bool := address.segment 0 / 256 == 0xff

/-- The two octets of a segment. -/
def octetsOf (segment : Fin 65536) : List (Fin 256) :=
  [⟨segment.val / 256, by omega⟩, ⟨segment.val % 256, by omega⟩]

/-- `to_ipv4_mapped`: the address in ::ffff:0:0/96. -/
def toIpv4Mapped (address : Ipv6) : Option Ipv4 :=
  match address.segments with
  | [⟨0, _⟩, ⟨0, _⟩, ⟨0, _⟩, ⟨0, _⟩, ⟨0, _⟩, ⟨0xffff, _⟩, high, low] =>
    some ⟨octetsOf high ++ octetsOf low, rfl⟩
  | _ => none

end Ipv6

/-- An address of one host. -/
def IpAddr.isUnicast : IpAddr → Bool
  | .v4 address => !address.isUnspecified && !address.isMulticast && !address.isBroadcast
  | .v6 address => !address.isUnspecified && !address.isMulticast

/-- A mapped address is neither unspecified nor a group, as an IPv6 address. -/
theorem Ipv6.isUnicast_of_mapped {address : Ipv6} {mapped : Ipv4}
    (maps : address.toIpv4Mapped = some mapped) : (IpAddr.v6 address).isUnicast := by
  unfold Ipv6.toIpv4Mapped at maps
  split at maps
  · rename_i segments
    simp [IpAddr.isUnicast, Ipv6.isUnspecified, Ipv6.isMulticast, Ipv6.segment, segments]
  · contradiction

/-! ### Digits -/

/-- `char::to_digit` in base ten. -/
def isDecimal (char : Char) : Bool := '0' ≤ char && char ≤ '9'

/-- The value of a hexadecimal digit of either case. -/
def hexValue (char : Char) : Option Nat :=
  if isDecimal char then some (char.toNat - '0'.toNat)
  else if 'a' ≤ char && char ≤ 'f' then some (char.toNat - 'a'.toNat + 10)
  else if 'A' ≤ char && char ≤ 'F' then some (char.toNat - 'A'.toNat + 10)
  else none

def isHexadecimal (char : Char) : Bool := (hexValue char).isSome

/-- The number that decimal digits stand for. -/
def decimal (digits : Text) : Nat :=
  digits.foldl (fun value digit => value * 10 + (digit.toNat - '0'.toNat)) 0

/-- The number that hexadecimal digits stand for. -/
def hexadecimal (digits : Text) : Nat :=
  digits.foldl (fun value digit => value * 16 + (hexValue digit).getD 0) 0

/-! ### Parsing -/

/-- One octet: up to three decimal digits without a leading zero. -/
def parseOctet (part : Text) : Option (Fin 256) :=
  if 0 < part.length ∧ part.length ≤ 3 ∧ part.all isDecimal ∧
      ¬ (1 < part.length ∧ part.head? = some '0') then
    if fits : decimal part < 256 then some ⟨decimal part, fits⟩ else none
  else none

/-- `Ipv4Addr::from_str`. -/
def parseIpv4 (text : Text) : Option Ipv4 :=
  match (text.splitOn '.').mapM parseOctet with
  | none => none
  | some octets => if four : octets.length = 4 then some ⟨octets, four⟩ else none

/-- One segment: up to four hexadecimal digits. -/
def parseSegment (part : Text) : Option (Fin 65536) :=
  if 0 < part.length ∧ part.length ≤ 4 ∧ part.all isHexadecimal then
    if fits : hexadecimal part < 65536 then some ⟨hexadecimal part, fits⟩ else none
  else none

/-- The two segments of an IPv4 address at the end of an IPv6 one. -/
def tailSegments (address : Ipv4) : List (Fin 65536) :=
  [⟨address.octet 0 % 256 * 256 + address.octet 1 % 256, by omega⟩,
    ⟨address.octet 2 % 256 * 256 + address.octet 3 % 256, by omega⟩]

/-- Parts between colons; the last one may be an IPv4 address. -/
def parseParts (dotted : Bool) : List Text → Option (List (Fin 65536))
  | [] => some []
  | [last] =>
    match parseSegment last with
    | some segment => some [segment]
    | none => if dotted then (parseIpv4 last).map tailSegments else none
  | part :: rest => do
    let segment ← parseSegment part
    let segments ← parseParts dotted rest
    some (segment :: segments)

/-- The segments on one side of a `::`, or of a whole address. -/
def parseSegments (dotted : Bool) (text : Text) : Option (List (Fin 65536)) :=
  if text = [] then some [] else parseParts dotted (text.splitOn ':')

/-- What stands before and behind the first `::`. -/
def splitCompressed : Text → Option (Text × Text)
  | [] => none
  | ':' :: ':' :: rest => some ([], rest)
  | char :: rest => (splitCompressed rest).map fun sides => (char :: sides.1, sides.2)

theorem eq_of_splitCompressed {text before behind : Text}
    (found : splitCompressed text = some (before, behind)) : text = before ++ ':' :: ':' :: behind := by
  fun_induction splitCompressed text generalizing before with
  | case1 => contradiction
  | case2 rest =>
      cases found
      rfl
  | case3 char rest other inductionHypothesis =>
      obtain ⟨⟨first, last⟩, inner, same⟩ := Option.map_eq_some_iff.mp found
      cases same
      rw [inductionHypothesis inner, List.cons_append]

/-- `Ipv6Addr::from_str`: eight segments, or fewer around one `::`. -/
def parseIpv6 (text : Text) : Option Ipv6 :=
  match splitCompressed text with
  | none =>
    match parseSegments true text with
    | none => none
    | some segments => if eight : segments.length = 8 then some ⟨segments, eight⟩ else none
  | some (before, behind) =>
    match parseSegments false before, parseSegments true behind with
    | some first, some last =>
      if short : first.length + last.length ≤ 7 then some {
        segments := first ++ List.replicate (8 - (first.length + last.length)) 0 ++ last
        eight := by
          rw [List.length_append, List.length_append, List.length_replicate]
          omega }
      else none
    | _, _ => none

/-- `IpAddr::from_str`. -/
def parseIpAddr (text : Text) : Option IpAddr :=
  match parseIpv4 text with
  | some address => some (.v4 address)
  | none => (parseIpv6 text).map .v6

example : (parseIpAddr "::ffff:10.0.0.1".toList).map (fun | .v4 _ => [] | .v6 address => address.segments) =
    some [0, 0, 0, 0, 0, 0xffff, 0x0a00, 1] := by decide

/-! ### Characters -/

/-- The characters that the text of an address is made of. -/
def isAddressChar (char : Char) : Bool := isHexadecimal char || char == '.' || char == ':'

theorem isHexadecimal_of_isDecimal {char : Char} (digit : isDecimal char) : isHexadecimal char := by
  rw [isHexadecimal, hexValue, if_pos digit]
  rfl

theorem isAddressChar_of_isHexadecimal {char : Char} (digit : isHexadecimal char) :
    isAddressChar char := by
  rw [isAddressChar, digit]
  rfl

theorem isAddressChar_of_splitOn {text : Text} (separator : Char) (used : isAddressChar separator)
    (parts : ∀ part ∈ text.splitOn separator, ∀ char ∈ part, isAddressChar char) :
    ∀ char ∈ text, isAddressChar char := by
  intro char member
  rcases mem_of_splitOn separator member with rfl | ⟨part, found, inside⟩
  · exact used
  · exact parts part found char inside

theorem digits_of_parseOctet {part : Text} {octet : Fin 256} (parsed : parseOctet part = some octet) :
    part ≠ [] ∧ part.all isDecimal ∧ decimal part = octet.val := by
  unfold parseOctet at parsed
  split at parsed
  · rename_i shape
    split at parsed
    · cases parsed
      exact ⟨List.length_pos_iff.mp shape.1, shape.2.2.1, rfl⟩
    · contradiction
  · contradiction

theorem isAddressChar_of_parseSegment {part : Text} {segment : Fin 65536}
    (parsed : parseSegment part = some segment) : ∀ char ∈ part, isAddressChar char := by
  unfold parseSegment at parsed
  split at parsed
  · rename_i shape
    exact fun char member =>
      isAddressChar_of_isHexadecimal (List.all_eq_true.mp shape.2.2 char member)
  · contradiction

/-- The octets of an IPv4 address are the numbers between its dots. -/
theorem octets_of_parseIpv4 {text : Text} {address : Ipv4} (parsed : parseIpv4 text = some address) :
    (text.splitOn '.').mapM parseOctet = some address.octets := by
  unfold parseIpv4 at parsed
  split at parsed
  · contradiction
  · rename_i octets found
    split at parsed
    · cases parsed
      exact found
    · contradiction

theorem isAddressChar_of_parseIpv4 {text : Text} {address : Ipv4}
    (parsed : parseIpv4 text = some address) : ∀ char ∈ text, isAddressChar char := by
  refine isAddressChar_of_splitOn '.' (by decide) fun part member => ?_
  obtain ⟨octet, read⟩ :=
    Option.isSome_iff_exists.mp (isSome_of_mapM (octets_of_parseIpv4 parsed) part member)
  exact fun char inside => isAddressChar_of_isHexadecimal
    (isHexadecimal_of_isDecimal (List.all_eq_true.mp (digits_of_parseOctet read).2.1 char inside))

theorem isAddressChar_of_parseParts {dotted : Bool} {parts : List Text}
    {segments : List (Fin 65536)} (parsed : parseParts dotted parts = some segments) :
    ∀ part ∈ parts, ∀ char ∈ part, isAddressChar char := by
  induction parts generalizing segments with
  | nil => exact fun part impossible => (nomatch impossible)
  | cons part rest inductionHypothesis =>
      cases rest with
      | nil =>
          intro only member
          rw [List.mem_singleton] at member
          subst member
          unfold parseParts at parsed
          split at parsed
          · rename_i segment found
            exact isAddressChar_of_parseSegment found
          · split at parsed
            · obtain ⟨address, found, _⟩ := Option.map_eq_some_iff.mp parsed
              exact isAddressChar_of_parseIpv4 found
            · contradiction
      | cons next rest =>
          unfold parseParts at parsed
          obtain ⟨segment, first, parsed⟩ := Option.bind_eq_some_iff.mp parsed
          obtain ⟨later, second, _⟩ := Option.bind_eq_some_iff.mp parsed
          intro found member
          rcases List.mem_cons.mp member with rfl | behind
          · exact isAddressChar_of_parseSegment first
          · exact inductionHypothesis second found behind

theorem isAddressChar_of_parseSegments {dotted : Bool} {text : Text} {segments : List (Fin 65536)}
    (parsed : parseSegments dotted text = some segments) : ∀ char ∈ text, isAddressChar char := by
  unfold parseSegments at parsed
  split at parsed
  · rename_i empty
    rw [empty]
    exact fun char impossible => (nomatch impossible)
  · exact isAddressChar_of_splitOn ':' (by decide) (isAddressChar_of_parseParts parsed)

/-- What an accepted IPv6 address was read from: two sides, or eight segments. -/
theorem sides_of_parseIpv6 {text : Text} {address : Ipv6} (parsed : parseIpv6 text = some address) :
    (parseSegments true text = some address.segments ∧ text ≠ []) ∨
      ∃ before behind first last, text = before ++ ':' :: ':' :: behind ∧
        parseSegments false before = some first ∧ parseSegments true behind = some last := by
  unfold parseIpv6 at parsed
  cases split : splitCompressed text with
  | none =>
      rw [split] at parsed
      dsimp only at parsed
      cases found : parseSegments true text with
      | none =>
          rw [found] at parsed
          contradiction
      | some segments =>
          rw [found] at parsed
          dsimp only at parsed
          split at parsed
          · rename_i eight
            cases parsed
            refine .inl ⟨rfl, ?_⟩
            rintro rfl
            cases found
            contradiction
          · contradiction
  | some sides =>
      obtain ⟨before, behind⟩ := sides
      rw [split] at parsed
      dsimp only at parsed
      cases first : parseSegments false before with
      | none =>
          rw [first] at parsed
          contradiction
      | some segments =>
          cases last : parseSegments true behind with
          | none =>
              rw [first, last] at parsed
              contradiction
          | some others =>
              exact .inr ⟨before, behind, segments, others, eq_of_splitCompressed split, first, last⟩

theorem isAddressChar_of_parseIpv6 {text : Text} {address : Ipv6}
    (parsed : parseIpv6 text = some address) : ∀ char ∈ text, isAddressChar char := by
  rcases sides_of_parseIpv6 parsed with ⟨whole, _⟩ | ⟨before, behind, first, last, rfl, front, back⟩
  · exact isAddressChar_of_parseSegments whole
  · intro char member
    rcases List.mem_append.mp member with inFirst | rest
    · exact isAddressChar_of_parseSegments front char inFirst
    · rcases List.mem_cons.mp rest with rfl | rest
      · decide
      · rcases List.mem_cons.mp rest with rfl | inLast
        · decide
        · exact isAddressChar_of_parseSegments back char inLast

/-- Every text of an IPv6 address has a colon. -/
theorem colon_of_parseIpv6 {text : Text} {address : Ipv6} (parsed : parseIpv6 text = some address) :
    ':' ∈ text := by
  rcases sides_of_parseIpv6 parsed with ⟨whole, nonempty⟩ | ⟨before, behind, _, _, rfl, _, _⟩
  · by_contra free
    have alone : text.splitOn ':' = [text] := List.splitOn_eq_singleton free
    rw [parseSegments, if_neg nonempty, alone] at whole
    have eight := address.eight
    unfold parseParts at whole
    split at whole
    · rw [← Option.some.inj whole] at eight
      exact absurd eight (by decide : ¬ 1 = 8)
    · rw [if_pos rfl] at whole
      obtain ⟨mapped, _, same⟩ := Option.map_eq_some_iff.mp whole
      rw [← same] at eight
      exact absurd eight (by decide : ¬ 2 = 8)
  · simp

theorem isAddressChar_of_parseIpAddr {text : Text} (parsed : (parseIpAddr text).isSome) :
    ∀ char ∈ text, isAddressChar char := by
  unfold parseIpAddr at parsed
  cases four : parseIpv4 text with
  | some address => exact isAddressChar_of_parseIpv4 four
  | none =>
      rw [four] at parsed
      dsimp only at parsed
      rw [Option.isSome_map] at parsed
      obtain ⟨address, six⟩ := Option.isSome_iff_exists.mp parsed
      exact isAddressChar_of_parseIpv6 six

theorem nonempty_of_parseIpAddr {text : Text} (parsed : (parseIpAddr text).isSome) : text ≠ [] := by
  rintro rfl
  exact absurd parsed (by decide)

/-! ### Shortest texts -/

/-- The lower-case hexadecimal digit of a number below sixteen. -/
def hexDigit (value : Nat) : Char := Nat.digitChar value

/-- The shortest lower-case hexadecimal text of a segment. -/
def hexText (segment : Fin 65536) : Text :=
  let digits := [segment.val / 4096, segment.val / 256 % 16, segment.val / 16 % 16, segment.val % 16]
  let significant := digits.dropWhile (· == 0)
  (if significant = [] then [0] else significant).map hexDigit

/-- Segments with a colon between each two. -/
def joinSegments (segments : List (Fin 65536)) : Text := [':'].intercalate (segments.map hexText)

/-- How many zero segments stand first. -/
def zeroRun (segments : List (Fin 65536)) : Nat := (segments.takeWhile (· == 0)).length

/-- Where the first longest run of zero segments starts, and its length. -/
def longestRun : List (Fin 65536) → Nat × Nat
  | [] => (0, 0)
  | segment :: rest =>
    let here := zeroRun (segment :: rest)
    let later := longestRun rest
    if later.2 ≤ here then (0, here) else (later.1 + 1, later.2)

/-- The shortest text of an IPv6 address, as the URL standard serialises hosts: the first
longest run of at least two zero segments is left out. -/
def serializeIpv6 (address : Ipv6) : Text :=
  let run := longestRun address.segments
  if run.2 ≤ 1 then joinSegments address.segments
  else joinSegments (address.segments.take run.1) ++ "::".toList ++
    joinSegments (address.segments.drop (run.1 + run.2))

example : (parseIpv6 "2001:DB8:0:0:1::1".toList).map serializeIpv6 =
    some "2001:db8::1:0:0:1".toList := by decide

example : (parseIpv6 "::FFFF:10.0.0.1".toList).map serializeIpv6 = some "::ffff:a00:1".toList := by
  decide

/-- A hexadecimal digit reads back as its value, and no digit is a colon. -/
theorem hexValue_hexDigit {value : Nat} (small : value < 16) :
    hexValue (hexDigit value) = some value := by
  have each : ∀ value : Fin 16, hexValue (hexDigit value.val) = some value.val := by decide
  exact each ⟨value, small⟩

theorem hexDigit_injective {first second : Nat} (small : first < 16) (little : second < 16)
    (same : hexDigit first = hexDigit second) : first = second := by
  have values := congrArg hexValue same
  rw [hexValue_hexDigit small, hexValue_hexDigit little] at values
  exact Option.some.inj values

/-- Digits with and without a zero in front. -/
theorem dropWhile_zero {digit : Nat} {rest : List Nat} (zero : digit = 0) :
    (digit :: rest).dropWhile (· == 0) = rest.dropWhile (· == 0) := by
  rw [zero]
  rfl

theorem dropWhile_significant {digit : Nat} {rest : List Nat} (significant : digit ≠ 0) :
    (digit :: rest).dropWhile (· == 0) = digit :: rest :=
  List.dropWhile_cons_of_neg (by simpa using significant)

/-- The significant digits of a segment. -/
theorem hexText_eq (segment : Fin 65536) :
    (segment.val < 16 ∧ hexText segment = [hexDigit segment.val]) ∨
      (16 ≤ segment.val ∧ segment.val < 256 ∧
        hexText segment = [hexDigit (segment.val / 16), hexDigit (segment.val % 16)]) ∨
      (256 ≤ segment.val ∧ segment.val < 4096 ∧ hexText segment =
        [hexDigit (segment.val / 256), hexDigit (segment.val / 16 % 16), hexDigit (segment.val % 16)]) ∨
      (4096 ≤ segment.val ∧ hexText segment = [hexDigit (segment.val / 4096),
        hexDigit (segment.val / 256 % 16), hexDigit (segment.val / 16 % 16),
        hexDigit (segment.val % 16)]) := by
  obtain ⟨value, bound⟩ := segment
  dsimp only
  unfold hexText
  dsimp only
  by_cases four : 4096 ≤ value
  · refine .inr (.inr (.inr ⟨four, ?_⟩))
    rw [dropWhile_significant (by omega), if_neg (List.cons_ne_nil _ _)]
    rfl
  · rw [dropWhile_zero (by omega)]
    by_cases three : 256 ≤ value
    · refine .inr (.inr (.inl ⟨three, by omega, ?_⟩))
      have high : value / 256 % 16 = value / 256 := by omega
      rw [dropWhile_significant (by omega), if_neg (List.cons_ne_nil _ _), high]
      rfl
    · rw [dropWhile_zero (by omega)]
      by_cases two : 16 ≤ value
      · refine .inr (.inl ⟨two, by omega, ?_⟩)
        have high : value / 16 % 16 = value / 16 := by omega
        rw [dropWhile_significant (by omega), if_neg (List.cons_ne_nil _ _), high]
        rfl
      · refine .inl ⟨by omega, ?_⟩
        have low : value % 16 = value := by omega
        rw [dropWhile_zero (by omega), low]
        by_cases zero : value = 0
        · rw [zero]
          rfl
        · rw [dropWhile_significant zero, if_neg (List.cons_ne_nil _ _)]
          rfl

theorem hexText_ne_nil (segment : Fin 65536) : hexText segment ≠ [] := by
  rcases hexText_eq segment with ⟨_, text⟩ | ⟨_, _, text⟩ | ⟨_, _, text⟩ | ⟨_, text⟩
  · simp [text]
  · simp [text]
  · simp [text]
  · simp [text]

/-- Every character of a segment's text is the digit of a number. -/
theorem digit_of_mem_hexText {segment : Fin 65536} {char : Char} (member : char ∈ hexText segment) :
    ∃ value < 16, char = hexDigit value := by
  have bound := segment.isLt
  rcases hexText_eq segment with ⟨_, text⟩ | ⟨_, _, text⟩ | ⟨_, _, text⟩ | ⟨_, text⟩
  · rw [text, List.mem_singleton] at member
    exact ⟨_, by omega, member⟩
  · rw [text] at member
    simp only [List.mem_cons, List.not_mem_nil, or_false] at member
    rcases member with same | same
    · exact ⟨_, by omega, same⟩
    · exact ⟨_, by omega, same⟩
  · rw [text] at member
    simp only [List.mem_cons, List.not_mem_nil, or_false] at member
    rcases member with same | same | same
    · exact ⟨_, by omega, same⟩
    · exact ⟨_, by omega, same⟩
    · exact ⟨_, by omega, same⟩
  · rw [text] at member
    simp only [List.mem_cons, List.not_mem_nil, or_false] at member
    rcases member with same | same | same | same
    · exact ⟨_, by omega, same⟩
    · exact ⟨_, by omega, same⟩
    · exact ⟨_, by omega, same⟩
    · exact ⟨_, by omega, same⟩

theorem colon_not_mem_hexText (segment : Fin 65536) : ':' ∉ hexText segment := by
  intro member
  obtain ⟨value, small, same⟩ := digit_of_mem_hexText member
  have digit := congrArg hexValue same
  rw [hexValue_hexDigit small] at digit
  exact absurd digit.symm (by simp [hexValue, isDecimal])

/-- The text of a segment is read back. -/
theorem hexadecimal_hexText (segment : Fin 65536) : hexadecimal (hexText segment) = segment.val := by
  have bound := segment.isLt
  rcases hexText_eq segment with ⟨small, text⟩ | ⟨_, small, text⟩ | ⟨_, small, text⟩ | ⟨_, text⟩
  · simp only [text, hexadecimal, List.foldl_cons, List.foldl_nil, hexValue_hexDigit small,
      Option.getD_some]
    omega
  · have high : segment.val / 16 < 16 := by omega
    have low : segment.val % 16 < 16 := by omega
    simp only [text, hexadecimal, List.foldl_cons, List.foldl_nil, hexValue_hexDigit high,
      hexValue_hexDigit low, Option.getD_some]
    omega
  · have high : segment.val / 256 < 16 := by omega
    have middle : segment.val / 16 % 16 < 16 := by omega
    have low : segment.val % 16 < 16 := by omega
    simp only [text, hexadecimal, List.foldl_cons, List.foldl_nil, hexValue_hexDigit high,
      hexValue_hexDigit middle, hexValue_hexDigit low, Option.getD_some]
    omega
  · have top : segment.val / 4096 < 16 := by omega
    have high : segment.val / 256 % 16 < 16 := by omega
    have middle : segment.val / 16 % 16 < 16 := by omega
    have low : segment.val % 16 < 16 := by omega
    simp only [text, hexadecimal, List.foldl_cons, List.foldl_nil, hexValue_hexDigit top,
      hexValue_hexDigit high, hexValue_hexDigit middle, hexValue_hexDigit low, Option.getD_some]
    omega

theorem hexText_injective {first second : Fin 65536} (same : hexText first = hexText second) :
    first = second := by
  have values := congrArg hexadecimal same
  rw [hexadecimal_hexText, hexadecimal_hexText] at values
  exact Fin.ext values

/-- Joined segments are found between the colons. -/
theorem splitOn_joinSegments {segments : List (Fin 65536)} (nonempty : segments ≠ []) :
    (joinSegments segments).splitOn ':' = segments.map hexText := by
  refine List.splitOn_intercalate ':' (fun part member => ?_) (by simpa using nonempty)
  obtain ⟨segment, _, rfl⟩ := List.mem_map.mp member
  exact colon_not_mem_hexText segment

theorem joinSegments_cons_cons (segment next : Fin 65536) (rest : List (Fin 65536)) :
    joinSegments (segment :: next :: rest) = hexText segment ++ ':' :: joinSegments (next :: rest) := by
  unfold joinSegments
  rw [List.map_cons, List.map_cons, List.intercalate_cons_cons, List.append_assoc]
  rfl

theorem joinSegments_singleton (segment : Fin 65536) : joinSegments [segment] = hexText segment := by
  simp [joinSegments]

/-! ### Runs of zeros -/

theorem zeroRun_spec (segments : List (Fin 65536)) :
    segments = List.replicate (zeroRun segments) 0 ++ segments.drop (zeroRun segments) := by
  induction segments with
  | nil => rfl
  | cons segment rest inductionHypothesis =>
      by_cases zero : segment = 0
      · have one : zeroRun (segment :: rest) = zeroRun rest + 1 := by
          rw [zeroRun, List.takeWhile_cons_of_pos (by simpa using zero)]
          rfl
        rw [one, List.replicate_succ, List.cons_append, List.drop_succ_cons, ← inductionHypothesis,
          zero]
      · have none : zeroRun (segment :: rest) = 0 := by
          rw [zeroRun, List.takeWhile_cons_of_neg (by simpa using zero)]
          rfl
        rw [none]
        rfl

/-- The longest run is a run of zeros. -/
theorem longestRun_spec (segments : List (Fin 65536)) :
    segments.drop (longestRun segments).1 = List.replicate (longestRun segments).2 0 ++
      segments.drop ((longestRun segments).1 + (longestRun segments).2) := by
  induction segments with
  | nil => rfl
  | cons segment rest inductionHypothesis =>
      unfold longestRun
      dsimp only
      split
      · rw [List.drop_zero, Nat.zero_add]
        exact zeroRun_spec (segment :: rest)
      · dsimp only
        rw [List.drop_succ_cons, Nat.add_right_comm, List.drop_succ_cons]
        exact inductionHypothesis

/-- The text of an address starts with its first segment, or with the two colons that stand for
the zeros in front of the others. -/
theorem serializeIpv6_eq (address : Ipv6) :
    (∃ first rest behind, address.segments = first :: rest ∧
      serializeIpv6 address = hexText first ++ ':' :: behind ∧
      ¬ ((longestRun address.segments).1 = 0 ∧ 2 ≤ (longestRun address.segments).2)) ∨
    (2 ≤ (longestRun address.segments).2 ∧
      address.segments = List.replicate (longestRun address.segments).2 0 ++
        address.segments.drop (longestRun address.segments).2 ∧
      serializeIpv6 address =
        "::".toList ++ joinSegments (address.segments.drop (longestRun address.segments).2)) := by
  have spec := longestRun_spec address.segments
  unfold serializeIpv6
  dsimp only
  obtain ⟨segments, eight⟩ := address
  dsimp only at spec ⊢
  by_cases short : (longestRun segments).2 ≤ 1
  · rw [if_pos short]
    match segments, eight with
    | first :: next :: rest, _ =>
      exact .inl ⟨first, next :: rest, _, rfl, joinSegments_cons_cons first next rest,
        fun long => absurd long.2 (by omega)⟩
  · rw [if_neg short]
    cases start : (longestRun segments).1 with
    | zero =>
        rw [start, List.drop_zero, Nat.zero_add] at spec
        refine .inr ⟨by omega, spec, ?_⟩
        rw [List.take_zero, Nat.zero_add]
        rfl
    | succ before =>
        refine .inl ?_
        match segments, eight with
        | first :: next :: rest, _ =>
          rw [List.take_succ_cons]
          cases before with
          | zero =>
              rw [List.take_zero, joinSegments_singleton, List.append_assoc]
              exact ⟨first, next :: rest, _, rfl, rfl, fun long => absurd long.1 (by omega)⟩
          | succ before =>
              rw [List.take_succ_cons, joinSegments_cons_cons, List.append_assoc, List.append_assoc,
                List.cons_append]
              exact ⟨first, next :: rest, _, rfl, rfl, fun long => absurd long.1 (by omega)⟩

end Cairn.Library.IpAddresses
