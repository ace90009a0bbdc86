import Cairn.Protocol.DirectSdp

/-!
Owns the web client's destination policy in `installation-transport.ts` and how it compares
with the protocol's: which candidates each of the two lets through, and which candidate lines of
a description.

The URL parser is a parameter: from the text between the brackets to the host it reports, or
nothing where it throws.
-/

set_option autoImplicit false

namespace Cairn.Web

open Cairn.Library.TextLists
open Cairn.Library.IpAddresses
open Cairn.Protocol

/-- `new URL(…).hostname` for an address between brackets. -/
abbrev UrlHostname := Text → Option Text

/-- IPv6 hosts are reported in their shortest form. -/
def Normalises (hostname : UrlHostname) : Prop :=
  ∀ text address, parseIpv6 text = some address →
    hostname text = some ('[' :: serializeIpv6 address ++ [']'])

/-! ### Words -/

/-- `\s` and the characters that `trim` removes. -/
def isSpace (char : Char) : Bool :=
  let code := char.toNat
  (9 ≤ code && code ≤ 13) || code == 0x20 || code == 0xa0 || code == 0x1680 ||
    (0x2000 ≤ code && code ≤ 0x200a) || code == 0x2028 || code == 0x2029 || code == 0x202f ||
    code == 0x205f || code == 0x3000 || code == 0xfeff

/-- `trim`. -/
def trim (text : Text) : Text := ((text.dropWhile isSpace).reverse.dropWhile isSpace).reverse

/-- `split(/\s+/)`: between the ends no part is empty. -/
def splitSpaces (text : Text) : List Text :=
  match text.splitOnP isSpace with
  | [] => []
  | first :: rest => first :: (rest.dropLast.filter (fun part => part ≠ []) ++ rest.getLast?.toList)

/-! ### Destinations -/

/-- `unicastV4`. -/
def unicastV4 (octets : List Nat) : Bool :=
  octets.length == 4 && octets.all (fun value => value ≤ 255) && octets[0]? != some 127 &&
    octets.any (fun value => value != 0) &&
    !(octets[0]? == some 169 && octets[1]? == some 254) &&
    !(224 ≤ octets[0]?.getD 0 && octets[0]?.getD 0 ≤ 239) &&
    !octets.all (fun value => value == 255)

/-- `/^\d+\.\d+\.\d+\.\d+$/`. -/
def isDotted (address : Text) : Bool :=
  let parts := address.splitOn '.'
  parts.length == 4 && parts.all fun part => part ≠ [] && part.all isDecimal

/-- `[\da-f]`. -/
def isLowerHex (char : Char) : Bool := isDecimal char || ('a' ≤ char && char ≤ 'f')

/-- `/^::ffff:([\da-f]+):([\da-f]+)$/`. -/
def mapped (normalized : Text) : Option (Text × Text) :=
  match stripPrefix "::ffff:".toList normalized with
  | none => none
  | some rest => match rest.splitOn ':' with
    | [high, low] =>
      if high ≠ [] ∧ high.all isLowerHex ∧ low ≠ [] ∧ low.all isLowerHex then some (high, low) else none
    | _ => none

/-- `/^(?:ff|fe[89ab])/i`. -/
def groupOrLocal (normalized : Text) : Bool :=
  let char (index : Nat) := (normalized[index]?).map Char.toLower
  char 0 == some 'f' && (char 1 == some 'f' ||
    (char 1 == some 'e' && (char 2).any fun digit => digit ∈ ['8', '9', 'a', 'b']))

/-- What `usableCandidate` does with a normalised IPv6 host. -/
def usableIpv6 (normalized : Text) : Bool :=
  match mapped normalized with
  | some (high, low) =>
    let high := hexadecimal high
    let low := hexadecimal low
    unicastV4 [high / 256, high % 256, low / 256, low % 256]
  | none => normalized ≠ "::".toList && normalized ≠ "::1".toList && !groupOrLocal normalized

/-- What `usableCandidate` does with an address. -/
def usableAddress (hostname : UrlHostname) (address : Text) : Bool :=
  if address = [] then false
  else if isDotted address then unicastV4 ((address.splitOn '.').map decimal)
  else if ':' ∉ address then false
  else match hostname address with
    | none => false
    | some host => usableIpv6 (host.tail.dropLast)

/-- `usableCandidate`. -/
def webUsableCandidate (hostname : UrlHostname) (candidate : Text) : Bool :=
  if candidate = [] then true
  else match (splitSpaces (trim candidate))[4]? with
    | none => false
    | some address => usableAddress hostname address

/-- `split('\r\n')`. -/
def splitCrlf : Text → List Text
  | '\r' :: '\n' :: rest => [] :: splitCrlf rest
  | char :: rest => (splitCrlf rest).modifyHead (char :: ·)
  | [] => [[]]

/-- `usableSdp`. -/
def usableSdp (hostname : UrlHostname) (sdp : Text) : Text :=
  crlf.intercalate ((splitCrlf sdp).filter fun line =>
    !startsWith "a=candidate:".toList line || webUsableCandidate hostname (line.drop 2))

/-! ### IPv4 -/

/-- Both policies on the octets of an IPv4 address. -/
theorem unicastV4_octets (address : Ipv4) :
    unicastV4 (address.octets.map Fin.val) = usableCandidateAddress (.v4 address) := by
  obtain ⟨octets, four⟩ := address
  match octets, four with
  | [first, second, third, fourth], _ =>
    have bounds := And.intro first.isLt (And.intro second.isLt (And.intro third.isLt fourth.isLt))
    rw [Bool.eq_iff_iff]
    simp [unicastV4, usableCandidateAddress, Ipv4.isLoopback, Ipv4.isLinkLocal, Ipv4.isUnspecified,
      Ipv4.isMulticast, Ipv4.isBroadcast, Ipv4.octet]
    omega

/-- The client reads the octets that the protocol reads. -/
theorem isDotted_of_parseIpv4 {text : Text} {address : Ipv4} (parsed : parseIpv4 text = some address) :
    isDotted text ∧ (text.splitOn '.').map decimal = address.octets.map Fin.val := by
  have read := octets_of_parseIpv4 parsed
  have values : (text.splitOn '.').map decimal = address.octets.map Fin.val :=
    map_eq_of_mapM (fun _ _ octet => (digits_of_parseOctet octet).2.2) read
  refine ⟨?_, values⟩
  have lengths := congrArg List.length values
  rw [List.length_map, List.length_map, address.four] at lengths
  unfold isDotted
  dsimp only
  rw [lengths, Bool.and_eq_true]
  refine ⟨rfl, List.all_eq_true.mpr fun part member => ?_⟩
  obtain ⟨octet, known⟩ := Option.isSome_iff_exists.mp (isSome_of_mapM read part member)
  obtain ⟨nonempty, digits, _⟩ := digits_of_parseOctet known
  rw [digits, decide_eq_true nonempty]
  rfl

/-! ### IPv6 -/

/-- First segments whose text starts like that of a group or of a link-local address. -/
def misreadSegment (segment : Nat) : Bool :=
  segment == 0xff || segment / 16 == 0xff || (0xfe8 ≤ segment && segment ≤ 0xfeb)

/-- What the client's pattern makes of the digits that stand first. -/
theorem toLower_hexDigit {value : Nat} (small : value < 16) :
    (hexDigit value).toLower = hexDigit value ∧ (hexDigit value = 'f' ↔ value = 15) ∧
      (hexDigit value = 'e' ↔ value = 14) ∧
      (hexDigit value ∈ ['8', '9', 'a', 'b'] ↔ 8 ≤ value ∧ value ≤ 11) := by
  have each : ∀ value : Fin 16, (hexDigit value.val).toLower = hexDigit value.val ∧
      (hexDigit value.val = 'f' ↔ value.val = 15) ∧ (hexDigit value.val = 'e' ↔ value.val = 14) ∧
      (hexDigit value.val ∈ ['8', '9', 'a', 'b'] ↔ 8 ≤ value.val ∧ value.val ≤ 11) := by decide
  exact each ⟨value, small⟩

theorem groupOrLocal_cons_cons {first second : Char} {rest : Text} :
    groupOrLocal (first :: second :: rest) ↔ first.toLower = 'f' ∧ (second.toLower = 'f' ∨
      (second.toLower = 'e' ∧ ∃ third ∈ rest.head?, third.toLower ∈ ['8', '9', 'a', 'b'])) := by
  cases rest with
  | nil => simp [groupOrLocal]
  | cons third rest => simp [groupOrLocal]

theorem groupOrLocal_hexText (segment : Fin 65536) (behind : Text) :
    groupOrLocal (hexText segment ++ ':' :: behind) =
      (segment.val / 256 == 0xff || segment.val / 64 == 0xfe80 / 64 || misreadSegment segment.val) := by
  have bound := segment.isLt
  have colon : ':'.toLower ≠ 'f' ∧ ':'.toLower ≠ 'e' ∧ ':'.toLower ∉ ['8', '9', 'a', 'b'] := by decide
  rw [Bool.eq_iff_iff]
  simp only [misreadSegment, Bool.or_eq_true, Bool.and_eq_true, beq_iff_eq, decide_eq_true_eq]
  rcases hexText_eq segment with ⟨small, text⟩ | ⟨large, small, text⟩ | ⟨large, small, text⟩ | ⟨large, text⟩
  · rw [text, List.singleton_append, groupOrLocal_cons_cons]
    simp only [colon.1, colon.2.1, false_and, or_false, and_false, false_iff]
    omega
  · have high : segment.val / 16 < 16 := by omega
    have low : segment.val % 16 < 16 := by omega
    obtain ⟨highLower, highF, _, _⟩ := toLower_hexDigit high
    obtain ⟨lowLower, lowF, lowE, _⟩ := toLower_hexDigit low
    rw [text, List.cons_append, List.singleton_append, groupOrLocal_cons_cons]
    simp only [highLower, lowLower, highF, lowF, lowE, List.head?_cons, Option.mem_some_iff,
      exists_eq_left', colon.2.2, and_false, or_false]
    omega
  · have high : segment.val / 256 < 16 := by omega
    have middle : segment.val / 16 % 16 < 16 := by omega
    have low : segment.val % 16 < 16 := by omega
    obtain ⟨highLower, highF, _, _⟩ := toLower_hexDigit high
    obtain ⟨middleLower, middleF, middleE, _⟩ := toLower_hexDigit middle
    obtain ⟨lowLower, _, _, lowLocal⟩ := toLower_hexDigit low
    rw [text, List.cons_append, List.cons_append, List.singleton_append, groupOrLocal_cons_cons]
    simp only [highLower, middleLower, lowLower, highF, middleF, middleE, List.head?_cons,
      Option.mem_some_iff, exists_eq_left', lowLocal]
    omega
  · have top : segment.val / 4096 < 16 := by omega
    have high : segment.val / 256 % 16 < 16 := by omega
    have middle : segment.val / 16 % 16 < 16 := by omega
    obtain ⟨topLower, topF, _, _⟩ := toLower_hexDigit top
    obtain ⟨highLower, highF, highE, _⟩ := toLower_hexDigit high
    obtain ⟨middleLower, _, _, middleLocal⟩ := toLower_hexDigit middle
    rw [text, List.cons_append, List.cons_append, groupOrLocal_cons_cons]
    simp only [topLower, highLower, middleLower, topF, highF, highE, List.cons_append, List.head?_cons,
      Option.mem_some_iff, exists_eq_left', middleLocal]
    omega

/-- The addresses with a text of their own are compressed at their start. -/
theorem longestRun_of_mapped {address : Ipv6} {inner : Ipv4} (maps : address.toIpv4Mapped = some inner) :
    ∃ high low, address.segments = [0, 0, 0, 0, 0, 0xffff, high, low] ∧
      inner.octets = Ipv6.octetsOf high ++ Ipv6.octetsOf low ∧ longestRun address.segments = (0, 5) := by
  unfold Ipv6.toIpv4Mapped at maps
  split at maps
  · rename_i high low segments
    cases maps
    have shape : address.segments = [0, 0, 0, 0, 0, 0xffff, high, low] := segments
    refine ⟨high, low, shape, rfl, ?_⟩
    rw [shape]
    by_cases highZero : high = 0
    · by_cases lowZero : low = 0
      · rw [highZero, lowZero]
        decide
      · simp [longestRun, zeroRun, highZero, lowZero]
    · by_cases lowZero : low = 0
      · simp [longestRun, zeroRun, highZero, lowZero]
      · simp [longestRun, zeroRun, highZero, lowZero]
  · cases maps

theorem segments_of_unspecified {address : Ipv6} (unspecified : address.isUnspecified) :
    address.segments = List.replicate 8 0 := by
  refine List.eq_replicate_iff.mpr ⟨address.eight, fun segment member => ?_⟩
  have zero := List.all_eq_true.mp unspecified segment member
  exact Fin.ext (beq_iff_eq.mp zero)

theorem segments_of_loopback {address : Ipv6} (loopback : address.isLoopback) :
    address.segments = [0, 0, 0, 0, 0, 0, 0, 1] := by
  have values : address.segments.map Fin.val =
      ([0, 0, 0, 0, 0, 0, 0, 1] : List (Fin 65536)).map Fin.val := beq_iff_eq.mp loopback
  exact List.map_injective_iff.mpr (fun _ _ => Fin.ext) values

theorem mapped_hexText (high low : Fin 65536) :
    mapped ("::ffff:".toList ++ (hexText high ++ ':' :: hexText low)) =
      some (hexText high, hexText low) := by
  have lower : ∀ segment : Fin 65536, (hexText segment).all isLowerHex := by
    intro segment
    refine List.all_eq_true.mpr fun char member => ?_
    obtain ⟨value, small, rfl⟩ := digit_of_mem_hexText member
    have each : ∀ value : Fin 16, isLowerHex (hexDigit value.val) := by decide
    exact each ⟨value, small⟩
  unfold mapped
  rw [stripPrefix_append]
  dsimp only
  rw [List.splitOn_append_cons_self_of_not_mem (colon_not_mem_hexText high),
    List.splitOn_eq_singleton (colon_not_mem_hexText low)]
  dsimp only
  rw [if_pos ⟨hexText_ne_nil high, lower high, hexText_ne_nil low, lower low⟩]

/-- Only a mapped address has a text of that form. -/
theorem maps_of_mapped {address : Ipv6} {after : List (Fin 65536)} {count : Nat} {pair : Text × Text}
    (segments : address.segments = List.replicate count 0 ++ after)
    (found : mapped ("::".toList ++ joinSegments after) = some pair) :
    ∃ inner, address.toIpv4Mapped = some inner := by
  unfold mapped at found
  cases stripped : stripPrefix "::ffff:".toList ("::".toList ++ joinSegments after) with
  | none =>
      rw [stripped] at found
      exact nomatch found
  | some rest =>
      rw [stripped] at found
      dsimp only at found
      split at found
      · rename_i high low parts
        have whole := stripPrefix_eq_some.mp stripped
        have joined : joinSegments after = "ffff".toList ++ ':' :: rest :=
          List.append_cancel_left (show "::".toList ++ joinSegments after =
            "::".toList ++ ("ffff".toList ++ ':' :: rest) from whole)
        have nonempty : after ≠ [] := by
          rintro rfl
          exact nomatch joined
        have split := splitOn_joinSegments nonempty
        rw [joined, List.splitOn_append_cons_self_of_not_mem (by decide), parts] at split
        have three : after.length = 3 := by
          have lengths := congrArg List.length split
          rw [List.length_map] at lengths
          exact lengths.symm
        match after, three, split, segments with
        | [group, first, second], _, split, segments =>
          have same : hexText 0xffff = hexText group := (List.cons.inj split).1
          obtain rfl := hexText_injective same
          have five : count = 5 := by
            have eight := address.eight
            rw [segments, List.length_append, List.length_replicate] at eight
            exact Nat.add_right_cancel eight
          subst five
          refine ⟨⟨Ipv6.octetsOf first ++ Ipv6.octetsOf second, rfl⟩, ?_⟩
          unfold Ipv6.toIpv4Mapped
          rw [segments]
          rfl
      · exact nomatch found

/-- Only the unspecified address has no segment left. -/
theorem isUnspecified_of_text {address : Ipv6} {after : List (Fin 65536)} {count : Nat}
    (segments : address.segments = List.replicate count 0 ++ after)
    (text : "::".toList ++ joinSegments after = "::".toList) : address.isUnspecified := by
  have empty : joinSegments after = [] := List.append_right_eq_self.mp text
  have none : after = [] := by
    by_contra nonempty
    have split := splitOn_joinSegments nonempty
    rw [empty, List.splitOn_nil] at split
    cases after with
    | nil => exact absurd rfl nonempty
    | cons segment rest => exact hexText_ne_nil segment (List.cons.inj split).1.symm
  rw [none, List.append_nil] at segments
  rw [Ipv6.isUnspecified, segments]
  refine List.all_eq_true.mpr fun segment member => ?_
  rw [(List.mem_replicate.mp member).2]
  rfl

/-- Only the loopback address has a single one left. -/
theorem isLoopback_of_text {address : Ipv6} {after : List (Fin 65536)} {count : Nat}
    (segments : address.segments = List.replicate count 0 ++ after)
    (text : "::".toList ++ joinSegments after = "::1".toList) : address.isLoopback := by
  have one : joinSegments after = "1".toList :=
    List.append_cancel_left (show "::".toList ++ joinSegments after = "::".toList ++ "1".toList from text)
  have nonempty : after ≠ [] := by
    rintro rfl
    exact nomatch one
  have split := splitOn_joinSegments nonempty
  rw [one, List.splitOn_eq_singleton (by decide)] at split
  cases after with
  | nil => exact absurd rfl nonempty
  | cons segment rest =>
      obtain ⟨same, none⟩ := List.cons.inj split
      obtain rfl := List.map_eq_nil_iff.mp none.symm
      have value : hexText 1 = hexText segment := same
      obtain rfl := hexText_injective value
      have seven : count = 7 := by
        have eight := address.eight
        rw [segments, List.length_append, List.length_replicate] at eight
        exact Nat.add_right_cancel eight
      rw [Ipv6.isLoopback, segments, seven]
      rfl

/-- A text that starts with a segment is none of the client's exceptions. -/
theorem usableIpv6_hexText (segment : Fin 65536) (behind : Text) :
    usableIpv6 (hexText segment ++ ':' :: behind) = !groupOrLocal (hexText segment ++ ':' :: behind) := by
  cases text : hexText segment with
  | nil => exact absurd text (hexText_ne_nil segment)
  | cons char rest =>
      have colon : char ≠ ':' := by
        rintro rfl
        exact colon_not_mem_hexText segment (by rw [text]; exact List.mem_cons_self)
      have unmapped : mapped (char :: rest ++ ':' :: behind) = none := by
        have stripped : stripPrefix "::ffff:".toList (char :: rest ++ ':' :: behind) = none :=
          if_neg fun same => colon same.symm
        unfold mapped
        rw [stripped]
      unfold usableIpv6
      rw [unmapped]
      have unspecified : char :: rest ++ ':' :: behind ≠ "::".toList :=
        fun same => colon (List.cons.inj same).1
      have loopback : char :: rest ++ ':' :: behind ≠ "::1".toList :=
        fun same => colon (List.cons.inj same).1
      dsimp only
      rw [decide_eq_true unspecified, decide_eq_true loopback]
      rfl

/-- The protocol's policy where no special address is left out. -/
theorem usableCandidateAddress_v6 {address : Ipv6} (unmapped : address.toIpv4Mapped = none)
    (loopback : address.isLoopback = false) (unspecified : address.isUnspecified = false) :
    usableCandidateAddress (.v6 address) = !(address.segment 0 / 256 == 0xff ||
      address.segment 0 / 64 == 0xfe80 / 64) := by
  unfold usableCandidateAddress
  dsimp only
  rw [unmapped]
  dsimp only
  rw [loopback, unspecified, Ipv6.isUnicastLinkLocal, Ipv6.isMulticast]
  cases address.segment 0 / 64 == 0xfe80 / 64 with
  | false =>
      cases address.segment 0 / 256 == 0xff with
      | false => rfl
      | true => rfl
  | true =>
      cases address.segment 0 / 256 == 0xff with
      | false => rfl
      | true => rfl

/-- The client reads the shortest text of an address as the protocol reads the address, but for
the first segments it misreads. -/
theorem usableIpv6_serializeIpv6 (address : Ipv6) :
    usableIpv6 (serializeIpv6 address) =
      (usableCandidateAddress (.v6 address) && !misreadSegment (address.segment 0)) := by
  rcases serializeIpv6_eq address with ⟨first, rest, behind, segments, text, uncompressed⟩ |
    ⟨long, segments, text⟩
  · have unmapped : address.toIpv4Mapped = none := by
      cases maps : address.toIpv4Mapped with
      | none => rfl
      | some inner =>
          obtain ⟨_, _, _, _, run⟩ := longestRun_of_mapped maps
          exact absurd (by rw [run]; decide) uncompressed
    have unspecified : address.isUnspecified = false := by
      rw [Bool.eq_false_iff]
      intro all
      rw [segments_of_unspecified all] at uncompressed
      exact absurd (by decide) uncompressed
    have loopback : address.isLoopback = false := by
      rw [Bool.eq_false_iff]
      intro itself
      rw [segments_of_loopback itself] at uncompressed
      exact absurd (by decide) uncompressed
    have head : address.segment 0 = first.val := by rw [Ipv6.segment, segments]; rfl
    rw [text, usableIpv6_hexText, groupOrLocal_hexText,
      usableCandidateAddress_v6 unmapped loopback unspecified, head, Bool.not_or]
  · cases maps : address.toIpv4Mapped with
    | some inner =>
        obtain ⟨high, low, shape, octets, run⟩ := longestRun_of_mapped maps
        have whole : serializeIpv6 address = "::ffff:".toList ++ (hexText high ++ ':' :: hexText low) := by
          rw [text, run, shape]
          show "::".toList ++ joinSegments [0xffff, high, low] = _
          rw [joinSegments_cons_cons, joinSegments_cons_cons, joinSegments_singleton]
          rfl
        have head : address.segment 0 = 0 := by rw [Ipv6.segment, shape]; rfl
        have values : inner.octets.map Fin.val =
            [high.val / 256, high.val % 256, low.val / 256, low.val % 256] := by rw [octets]; rfl
        have usable : usableCandidateAddress (.v6 address) = usableCandidateAddress (.v4 inner) := by
          unfold usableCandidateAddress
          dsimp only
          rw [maps]
        rw [whole, usableIpv6, mapped_hexText, usable, ← unicastV4_octets, values, head]
        dsimp only
        rw [hexadecimal_hexText, hexadecimal_hexText]
        exact (Bool.and_true _).symm
    | none =>
        have unmapped : mapped (serializeIpv6 address) = none := by
          cases found : mapped (serializeIpv6 address) with
          | none => rfl
          | some pair =>
              rw [text] at found
              obtain ⟨inner, some⟩ := maps_of_mapped segments found
              rw [maps] at some
              cases some
        have other : groupOrLocal (serializeIpv6 address) = false := by
          rw [text]
          rfl
        have head : address.segment 0 = 0 := by
          rw [Ipv6.segment, segments]
          obtain ⟨more, count⟩ := Nat.exists_eq_add_of_le' long
          rw [count]
          rfl
        rw [usableIpv6, unmapped, other, head]
        dsimp only
        cases unspecified : address.isUnspecified with
        | true =>
            have whole : serializeIpv6 address = "::".toList := by
              rw [serializeIpv6, segments_of_unspecified unspecified]
              decide
            rw [whole, usableCandidateAddress]
            rw [maps]
            dsimp only
            rw [unspecified]
            simp
        | false =>
            cases loopback : address.isLoopback with
            | true =>
                have whole : serializeIpv6 address = "::1".toList := by
                  rw [serializeIpv6, segments_of_loopback loopback]
                  decide
                rw [whole, usableCandidateAddress]
                rw [maps]
                dsimp only
                rw [loopback]
                simp
            | false =>
                have notUnspecified : serializeIpv6 address ≠ "::".toList := by
                  rw [text]
                  intro same
                  rw [isUnspecified_of_text segments same] at unspecified
                  cases unspecified
                have notLoopback : serializeIpv6 address ≠ "::1".toList := by
                  rw [text]
                  intro same
                  rw [isLoopback_of_text segments same] at loopback
                  cases loopback
                rw [usableCandidateAddress_v6 maps loopback unspecified, head,
                  decide_eq_true notUnspecified, decide_eq_true notLoopback]
                rfl

/-! ### Addresses -/

theorem not_isDotted_of_mem {address : Text} {char : Char} (member : char ∈ address) (other : char ≠ '.')
    (sign : isDecimal char = false) : isDotted address = false := by
  rw [Bool.eq_false_iff]
  intro dotted
  obtain ⟨_, each⟩ := Bool.and_eq_true _ _ |>.mp dotted
  rcases mem_of_splitOn '.' member with same | ⟨part, found, inside⟩
  · exact other same
  · have digits := (Bool.and_eq_true _ _ |>.mp (List.all_eq_true.mp each part found)).2
    rw [List.all_eq_true.mp digits char inside] at sign
    contradiction

/-- Addresses whose normalised text the client takes for that of a group or of a link-local
address. -/
def misreadAddress (address : Text) : Bool :=
  match parseIpAddr address with
  | some (.v6 address) => misreadSegment (address.segment 0)
  | _ => false

/-- The protocol's policy on an address. -/
def usableText (address : Text) : Bool :=
  match parseIpAddr address with
  | some ip => usableCandidateAddress ip
  | none => false

/-- The client and the protocol agree on an address, but for what the client misreads. -/
theorem usableAddress_eq {hostname : UrlHostname} (normalises : Normalises hostname) {address : Text}
    (named : candidateName address) :
    usableAddress hostname address = (usableText address && !misreadAddress address) := by
  have nonempty := (Visible.name named).nonempty
  unfold usableAddress usableText misreadAddress
  rw [if_neg nonempty]
  cases four : parseIpv4 address with
  | some ip =>
      obtain ⟨dotted, values⟩ := isDotted_of_parseIpv4 four
      rw [if_pos dotted, values, unicastV4_octets, parseIpAddr, four]
      exact (Bool.and_true _).symm
  | none =>
      cases six : parseIpv6 address with
      | some ip =>
          have colon := colon_of_parseIpv6 six
          rw [not_isDotted_of_mem colon (by decide) (by decide), if_neg Bool.false_ne_true,
            if_neg (not_not.mpr colon), normalises address ip six, parseIpAddr, four, six]
          dsimp only [Option.map_some]
          rw [List.cons_append, List.tail_cons, List.dropLast_concat, usableIpv6_serializeIpv6]
      | none =>
          have unparsed : parseIpAddr address = none := by
            rw [parseIpAddr, four, six]
            rfl
          rcases candidateName_cases named with parsed | ⟨front, rfl, tokens⟩
          · rw [unparsed] at parsed
            exact nomatch parsed
          · have colon : ':' ∉ front ++ ".local".toList := by
              rw [List.mem_append, not_or]
              refine ⟨fun member => ?_, by decide⟩
              exact absurd (List.all_eq_true.mp (Bool.and_eq_true _ _ |>.mp tokens).2 ':' member)
                (by decide)
            have letter : 'l' ∈ front ++ ".local".toList :=
              List.mem_append_right front (by decide)
            rw [not_isDotted_of_mem letter (by decide) (by decide), if_neg Bool.false_ne_true,
              if_pos colon, unparsed]
            rfl

/-! ### Candidates -/

/-- The word of a candidate that has its address. -/
def addressOf (candidate : Text) : Option Text :=
  (stripPrefix "candidate:".toList candidate).bind fun value => (value.splitOn ' ')[4]?

/-- Candidates with an address that the client misreads. -/
def misread (candidate : Text) : Bool := (addressOf candidate).any misreadAddress

theorem isSpace_of_isVisible (char : Char) (shown : isVisible char) : isSpace char = false := by
  rw [isVisible_iff] at shown
  rw [Bool.eq_false_iff]
  intro white
  simp only [isSpace, Bool.or_eq_true, Bool.and_eq_true, decide_eq_true_eq, beq_iff_eq] at white
  omega

theorem dropWhile_eq_self {text : Text} (first : ∀ char ∈ text.head?, isSpace char = false) :
    text.dropWhile isSpace = text := by
  cases text with
  | nil => rfl
  | cons char rest =>
      exact List.dropWhile_cons_of_neg (by rw [first char rfl]; exact Bool.false_ne_true)

theorem trim_eq_self {text : Text} (first : ∀ char ∈ text.head?, isSpace char = false)
    (last : ∀ char ∈ text.getLast?, isSpace char = false) : trim text = text := by
  rw [trim, dropWhile_eq_self first, dropWhile_eq_self (by rwa [List.head?_reverse]),
    List.reverse_reverse]

theorem splitSpaces_of_nonempty {text : Text} (nonempty : ∀ part ∈ text.splitOnP isSpace, part ≠ []) :
    splitSpaces text = text.splitOnP isSpace := by
  unfold splitSpaces
  cases parts : text.splitOnP isSpace with
  | nil => rfl
  | cons first rest =>
      rw [parts] at nonempty
      dsimp only
      rw [List.filter_eq_self.mpr fun part member => by
        simpa using nonempty part (List.mem_cons_of_mem _ (List.dropLast_subset _ member))]
      cases last : rest.getLast? with
      | none =>
          rw [List.getLast?_eq_none_iff.mp last]
          rfl
      | some part =>
          rw [Option.toList_some, List.dropLast_append_getLast? part last]

/-- The client finds the address that the protocol finds. -/
theorem webUsableCandidate_eq {hostname : UrlHostname} {candidate address : Text}
    (accepted : candidateSyntax candidate) (nonempty : candidate ≠ [])
    (found : addressOf candidate = some address) :
    webUsableCandidate hostname candidate = usableAddress hostname address := by
  obtain ⟨value, rfl, words⟩ := words_of_candidateSyntax accepted nonempty
  have shown := visible_of_candidate words
  have split : ("candidate:".toList ++ value).splitOnP isSpace =
      (value.splitOn ' ').modifyHead ("candidate:".toList ++ ·) :=
    splitOnP_of_candidateWords (by decide) isSpace_of_isVisible words
  have visible : ∀ part ∈ ("candidate:".toList ++ value).splitOnP isSpace, part ≠ [] :=
    fun part member => (shown part (split ▸ member)).nonempty
  have trimmed : trim ("candidate:".toList ++ value) = "candidate:".toList ++ value := by
    refine trim_eq_self (fun char first => ?_) fun char last => ?_
    · cases first
      decide
    · rw [Bool.eq_false_iff]
      intro white
      have cut := List.dropLast_append_getLast? char last
      rw [← cut, List.splitOnP_append_cons _ _ white, List.splitOnP_nil] at visible
      exact visible [] (List.mem_append_right _ List.mem_cons_self) rfl
  have fifth : (splitSpaces (trim ("candidate:".toList ++ value)))[4]? = some address := by
    rw [trimmed, splitSpaces_of_nonempty visible, split]
    rw [addressOf, stripPrefix_append, Option.bind_some] at found
    cases parts : value.splitOn ' ' with
    | nil =>
        rw [parts] at found
        exact nomatch found
    | cons first rest =>
        rw [parts] at found
        exact found
  rw [webUsableCandidate, if_neg nonempty, fifth]

theorem usable_of_misreadSegment {address : Ipv6} (wrong : misreadSegment (address.segment 0)) :
    usableCandidateAddress (.v6 address) := by
  simp only [misreadSegment, Bool.or_eq_true, Bool.and_eq_true, beq_iff_eq, decide_eq_true_eq] at wrong
  have front : ∀ rest : List (Fin 65536), address.segments ≠ 0 :: rest := by
    intro rest same
    have zero : address.segment 0 = 0 := by rw [Ipv6.segment, same]; rfl
    omega
  have unmapped : address.toIpv4Mapped = none := by
    cases maps : address.toIpv4Mapped with
    | none => rfl
    | some inner =>
        obtain ⟨_, _, shape, _⟩ := longestRun_of_mapped maps
        exact absurd shape (front _)
  have loopback : address.isLoopback = false :=
    Bool.eq_false_iff.mpr fun itself => front _ (segments_of_loopback itself)
  have unspecified : address.isUnspecified = false :=
    Bool.eq_false_iff.mpr fun all => front _ (segments_of_unspecified all)
  rw [usableCandidateAddress_v6 unmapped loopback unspecified, Bool.not_eq_true', Bool.or_eq_false_iff,
    beq_eq_false_iff_ne, beq_eq_false_iff_ne]
  omega

/-- The client misreads only addresses that the protocol lets through. -/
theorem usableText_of_misread {address : Text} (wrong : misreadAddress address) :
    usableText address := by
  unfold misreadAddress at wrong
  unfold usableText
  split at wrong
  · rename_i ip parsed
    rw [parsed]
    exact usable_of_misreadSegment wrong
  · contradiction

/-- On a candidate with accepted syntax the client and the protocol agree unless it is empty or
its address is misread. -/
theorem webUsableCandidate_eq_iff {hostname : UrlHostname} (normalises : Normalises hostname)
    {candidate : Text} (accepted : candidateSyntax candidate) :
    webUsableCandidate hostname candidate = usableCandidate candidate ↔
      candidate ≠ [] ∧ misread candidate = false := by
  by_cases empty : candidate = []
  · subst empty
    have client : webUsableCandidate hostname [] = true := rfl
    have protocol : usableCandidate [] = false := by decide
    rw [client, protocol]
    exact ⟨fun same => (nomatch same), fun differ => absurd rfl differ.1⟩
  · obtain ⟨address, addressed⟩ := Addressed.exists accepted empty
    obtain ⟨value, shape, found⟩ := addressed.spaced
    have place : addressOf candidate = some address := by
      rw [shape, addressOf, stripPrefix_append, Option.bind_some, found]
    have protocol : usableCandidate candidate = usableText address := by
      rw [usableCandidate, addressed.between]
      rfl
    have wrong : misread candidate = misreadAddress address := by
      rw [misread, place]
      rfl
    rw [webUsableCandidate_eq accepted empty place, usableAddress_eq normalises addressed.named,
      protocol, wrong]
    cases misread : misreadAddress address with
    | false => exact ⟨fun _ => ⟨empty, rfl⟩, fun _ => Bool.and_true _⟩
    | true =>
        rw [usableText_of_misread misread]
        exact ⟨fun same => (nomatch same), fun agree => (nomatch agree.2)⟩

/-! ### Descriptions -/

/-- Every line feed of a description belongs to a line end. -/
def CrlfLines (sdp : Text) : Prop := ∀ line ∈ splitCrlf sdp, '\n' ∉ line

instance (sdp : Text) : Decidable (CrlfLines sdp) :=
  inferInstanceAs (Decidable (∀ line ∈ splitCrlf sdp, '\n' ∉ line))

theorem splitCrlf_ne_nil (text : Text) : splitCrlf text ≠ [] := by
  fun_induction splitCrlf text with
  | case1 => exact List.cons_ne_nil _ _
  | case2 char rest other inductionHypothesis =>
      cases parts : splitCrlf rest with
      | nil => exact absurd parts inductionHypothesis
      | cons first others => exact List.cons_ne_nil _ _
  | case3 => exact List.cons_ne_nil _ _

theorem intercalate_splitCrlf (text : Text) : crlf.intercalate (splitCrlf text) = text := by
  fun_induction splitCrlf text with
  | case1 rest inductionHypothesis =>
      cases parts : splitCrlf rest with
      | nil => exact absurd parts (splitCrlf_ne_nil rest)
      | cons first others =>
          rw [List.intercalate_cons_cons, ← parts, inductionHypothesis]
          rfl
  | case2 char rest other inductionHypothesis =>
      cases parts : splitCrlf rest with
      | nil => exact absurd parts (splitCrlf_ne_nil rest)
      | cons first others =>
          rw [parts] at inductionHypothesis
          rw [List.modifyHead_cons]
          cases others with
          | nil =>
              rw [List.intercalate_singleton] at inductionHypothesis ⊢
              rw [inductionHypothesis]
          | cons second others =>
              rw [List.intercalate_cons_cons] at inductionHypothesis ⊢
              rw [List.cons_append, List.cons_append, inductionHypothesis]
  | case3 => rfl

/-- What `usableSdp` keeps. -/
def webKept (hostname : UrlHostname) (line : Text) : Bool :=
  !isCandidateLine line || webUsableCandidate hostname (line.drop 2)

/-- The candidate lines that the client leaves in a description. -/
theorem candidates_usableSdp (hostname : UrlHostname) {sdp : Text} (ended : CrlfLines sdp) :
    (lines (usableSdp hostname sdp)).filter isCandidateLine =
      ((lines sdp).filter isCandidateLine).filter (webKept hostname) := by
  have candidates : (lines sdp).filter isCandidateLine = (splitCrlf sdp).filter isCandidateLine := by
    have whole := filter_lines_intercalate isCandidateLine rfl ended
    rwa [intercalate_splitCrlf] at whole
  rw [candidates, List.filter_comm]
  exact filter_lines_intercalate isCandidateLine rfl fun line member => ended line (List.mem_of_mem_filter member)

theorem filter_eq_filter_iff {list : List Text} {first second : Text → Bool} :
    list.filter first = list.filter second ↔ ∀ line ∈ list, first line = second line := by
  constructor
  · intro same line member
    rw [Bool.eq_iff_iff]
    constructor
    · intro kept
      have there : line ∈ list.filter second := same ▸ List.mem_filter.mpr ⟨member, kept⟩
      exact (List.mem_filter.mp there).2
    · intro kept
      have there : line ∈ list.filter first := same ▸ List.mem_filter.mpr ⟨member, kept⟩
      exact (List.mem_filter.mp there).2
  · exact List.filter_congr

/-- The client and the protocol leave the same candidate lines in a description unless one of
its candidates is misread. -/
theorem candidates_agree_iff {hostname : UrlHostname} (normalises : Normalises hostname)
    {sdp cleaned : Text} (ended : CrlfLines sdp) (accepted : sanitizeSdp sdp = .ok cleaned) :
    (lines (usableSdp hostname sdp)).filter isCandidateLine = (lines cleaned).filter isCandidateLine ↔
      ∀ line ∈ lines sdp, isCandidateLine line → misread (line.drop 2) = false := by
  have known := Accepted.of accepted
  rw [candidates_usableSdp hostname ended, known.lines_eq, List.filter_comm isCandidateLine isKept,
    filter_eq_filter_iff]
  have agree : ∀ line ∈ lines sdp, isCandidateLine line →
      (webKept hostname line = isKept line ↔ misread (line.drop 2) = false) := by
    intro line member candidate
    obtain ⟨value, rfl⟩ := isCandidateLine_iff.mp candidate
    have syntactic := known.syntactic value member
    have behind : ("a=candidate:".toList ++ value).drop 2 = "candidate:".toList ++ value := rfl
    rw [webKept, isKept, candidate, behind, ← usableCandidate_iff_namesDestination syntactic,
      Bool.not_true, Bool.false_or, Bool.false_or, webUsableCandidate_eq_iff normalises syntactic]
    exact and_iff_right (List.append_ne_nil_of_left_ne_nil (by decide) value)
  constructor
  · exact fun same line member candidate =>
      (agree line member candidate).mp (same line (List.mem_filter.mpr ⟨member, candidate⟩))
  · intro read line member
    obtain ⟨inside, candidate⟩ := List.mem_filter.mp member
    exact (agree line inside candidate).mpr (read line inside candidate)

/-! ### Both policies -/

/-- A candidate is let through by both sides or by neither exactly where it has an address and
the client does not misread it, and so the candidate lines of a description that are left. -/
theorem destinations_agree_iff {hostname : UrlHostname} (normalises : Normalises hostname) :
    (∀ candidate, candidateSyntax candidate →
      (webUsableCandidate hostname candidate = usableCandidate candidate ↔
        candidate ≠ [] ∧ misread candidate = false)) ∧
    (∀ sdp cleaned, CrlfLines sdp → sanitizeSdp sdp = .ok cleaned →
      ((lines (usableSdp hostname sdp)).filter isCandidateLine = (lines cleaned).filter isCandidateLine ↔
        ∀ line ∈ lines sdp, isCandidateLine line → misread (line.drop 2) = false)) :=
  ⟨fun _ accepted => webUsableCandidate_eq_iff normalises accepted,
    fun _ _ ended accepted => candidates_agree_iff normalises ended accepted⟩

/-- The host that the URL standard reports for an IPv6 address. -/
def shortestHostname : UrlHostname := fun text =>
  (parseIpv6 text).map fun address => '[' :: serializeIpv6 address ++ [']']

theorem normalises_shortestHostname : Normalises shortestHostname := by
  intro text address parsed
  rw [shortestHostname, parsed]
  rfl

theorem destinations_agree_iff_sample :
    webUsableCandidate shortestHostname "candidate:1 1 udp 1 ::ffff:10.0.0.1 9 typ host".toList =
        usableCandidate "candidate:1 1 udp 1 ::ffff:10.0.0.1 9 typ host".toList ∧
      (lines (usableSdp shortestHostname (joinLines (DirectSignal.described [])))).filter isCandidateLine =
        (lines (joinLines (DirectSignal.described []))).filter isCandidateLine :=
  ⟨((destinations_agree_iff normalises_shortestHostname).1 _ (by decide)).mpr (by decide),
    ((destinations_agree_iff normalises_shortestHostname).2 _ _ (by decide +kernel)
      (by decide +kernel)).mpr (by decide +kernel)⟩

/-- A peer at ff::1 may be reached, but the client takes its address for that of a group. -/
theorem destinations_differ_at_short_segment :
    Normalises shortestHostname ∧
      candidateSyntax "candidate:1 1 udp 1 ff::1 9 typ host".toList ∧
      usableCandidate "candidate:1 1 udp 1 ff::1 9 typ host".toList = true ∧
      webUsableCandidate shortestHostname "candidate:1 1 udp 1 ff::1 9 typ host".toList = false :=
  ⟨normalises_shortestHostname, by decide, by decide, by decide⟩

end Cairn.Web
