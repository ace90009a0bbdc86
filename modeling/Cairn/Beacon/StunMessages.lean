import Cairn.Beacon.Stun

/-!
Owns what the messages of the responder are: binding requests as texts that attributes tile,
what the checks read and accept, and what a response says.

The checks never read outside of a datagram, and accept exactly the binding requests.
-/

set_option autoImplicit false

namespace Cairn.Beacon.Stun

open Cairn.Library Cairn.Library.IpAddresses

/-! ### Requests as texts -/

/-- An attribute: its kind, its value, and the bytes up to the next multiple of four. -/
structure Attribute where
  kind : Nat
  value : Bytes
  padding : Bytes

/-- The bytes of an attribute. -/
def Attribute.bytes (item : Attribute) : Bytes :=
  BigEndian.encode 2 item.kind ++ BigEndian.encode 2 item.value.length ++
    item.value ++ item.padding

/-- A comprehension-optional attribute other than FINGERPRINT. -/
structure Attribute.Optional (item : Attribute) : Prop where
  optional : 0x8000 ≤ item.kind ∧ item.kind < 256 ^ 2
  other : item.kind ≠ fingerprintKind
  short : item.value.length < 256 ^ 2
  padded : item.value.length + item.padding.length =
    nextMultipleOf item.value.length 4

variable (crc32 : Bytes → UInt32)

/-- A FINGERPRINT after so many bytes. -/
def fingerprintBytes (covered : Bytes) : Bytes :=
  [0x80, 0x28, 0, 4] ++ BigEndian.encode 4 (fingerprintOf crc32 covered).toNat

/-- The bytes of a binding request before its FINGERPRINT. -/
def requestBytes (size : Nat) (transaction : Bytes) (optional : List Attribute) : Bytes :=
  [0, 1] ++ BigEndian.encode 2 size ++ magicCookie ++ transaction ++
    optional.flatMap Attribute.bytes

/-- A well-formed binding request: a header with the exact length, comprehension-optional
attributes, and nothing after them but a valid FINGERPRINT. -/
def BindingRequest (request : Bytes) (fingerprint : Bool) : Prop :=
  ∃ transaction optional, transaction.length = 12 ∧ (∀ item ∈ optional, item.Optional) ∧
    20 ≤ request.length ∧ request.length ≤ 512 ∧
    request = requestBytes (request.length - 20) transaction optional ++
      if fingerprint then
        fingerprintBytes crc32 (requestBytes (request.length - 20) transaction optional)
      else []

/-! ### Reads -/

theorem slice_eq_some {input part : Bytes} {start stop : Nat} :
    slice input start stop = some part ↔
      start ≤ stop ∧ stop ≤ input.length ∧ part = (input.drop start).take (stop - start) := by
  unfold slice
  by_cases inside : start ≤ stop ∧ stop ≤ input.length
  · rw [if_pos inside]
    constructor
    · intro same
      exact ⟨inside.1, inside.2, (Option.some.inj same).symm⟩
    · intro same
      rw [same.2.2]
  · rw [if_neg inside]
    exact ⟨nofun, fun same => absurd ⟨same.1, same.2.1⟩ inside⟩

/-- A read within the datagram finds its bytes, whatever is behind them. -/
theorem slice_within {datagram : Bytes} (rest : Bytes) {start stop : Nat} (ordered : start ≤ stop)
    (inside : stop ≤ datagram.length) :
    slice (datagram ++ rest) start stop = some ((datagram.drop start).take (stop - start)) := by
  rw [slice_eq_some]
  refine ⟨ordered, by simp; omega, ?_⟩
  rw [List.drop_append_of_le_length (by omega), List.take_append_of_le_length (by simp; omega)]

theorem slice_eq {datagram : Bytes} {start stop : Nat} (ordered : start ≤ stop)
    (inside : stop ≤ datagram.length) :
    slice datagram start stop = some ((datagram.drop start).take (stop - start)) :=
  slice_eq_some.mpr ⟨ordered, inside, rfl⟩

theorem readU16_within {datagram : Bytes} (rest : Bytes) {offset : Nat}
    (inside : offset + 2 ≤ datagram.length) :
    readU16 (datagram ++ rest) offset = readU16 datagram offset := by
  unfold readU16
  rw [slice_within rest (by omega) inside, slice_eq (by omega) inside]

theorem readU16_eq {datagram : Bytes} {offset : Nat} (inside : offset + 2 ≤ datagram.length) :
    readU16 datagram offset = some (BigEndian.decode ((datagram.drop offset).take 2)) := by
  unfold readU16
  rw [slice_eq (by omega) inside, Nat.add_sub_cancel_left]
  rfl

/-- Two bytes that spell a number. -/
theorem take_of_readU16 {datagram : Bytes} {offset value : Nat}
    (reads : readU16 datagram offset = some value) :
    (datagram.drop offset).take 2 = BigEndian.encode 2 value ∧ value < 256 ^ 2 ∧
      offset + 2 ≤ datagram.length := by
  obtain ⟨part, isPart, spells⟩ := Option.map_eq_some_iff.mp reads
  obtain ⟨_, inside, rfl⟩ := slice_eq_some.mp isPart
  rw [Nat.add_sub_cancel_left] at spells
  have long : ((datagram.drop offset).take 2).length = 2 := by
    rw [List.length_take, List.length_drop]
    omega
  refine ⟨BigEndian.eq_encode long spells, ?_, inside⟩
  have bound := BigEndian.decode_lt ((datagram.drop offset).take 2)
  rwa [spells, long] at bound

theorem nextMultipleOf_four (size : Nat) :
    size ≤ nextMultipleOf size 4 ∧ nextMultipleOf size 4 < size + 4 ∧ nextMultipleOf size 4 % 4 = 0 := by
  unfold nextMultipleOf
  omega

/-! ### Reads stay within the datagram -/

/-- The header is read within the datagram. -/
theorem header_within (datagram rest : Bytes) :
    header (datagram ++ rest) datagram.length = header datagram datagram.length ∧
      (header datagram datagram.length).isSome := by
  unfold header
  by_cases outside : ¬ (20 ≤ datagram.length ∧ datagram.length ≤ 512)
  · rw [if_pos outside, if_pos outside]
    exact ⟨rfl, rfl⟩
  · rw [if_neg outside, if_neg outside]
    rw [not_not] at outside
    rw [slice_within rest (by omega) (by omega), slice_within rest (by omega) (by omega),
      readU16_within rest (by omega), slice_eq (by omega) (by omega),
      slice_eq (by omega) (by omega), readU16_eq (by omega)]
    exact ⟨rfl, rfl⟩

/-- The loop reads whole words of a datagram that consists of whole words. -/
theorem attributes_within (datagram rest : Bytes) {offset : Nat} (fingerprint : Bool)
    (words : datagram.length % 4 = 0) (aligned : offset % 4 = 0) :
    attributes crc32 (datagram ++ rest) datagram.length offset fingerprint =
        attributes crc32 datagram datagram.length offset fingerprint ∧
      (attributes crc32 datagram datagram.length offset fingerprint).isSome := by
  -- By the bytes that are left: every round takes at least four of them.
  induction left : datagram.length - offset using Nat.strong_induction_on
      generalizing offset fingerprint with
  | h left inductionHypothesis =>
      rw [attributes.eq_def crc32 (datagram ++ rest), attributes.eq_def crc32 datagram]
      by_cases more : offset < datagram.length
      · rw [if_pos more, if_pos more, readU16_within rest (by omega), readU16_within rest (by omega),
          readU16_eq (by omega), readU16_eq (by omega)]
        dsimp only
        generalize BigEndian.decode ((datagram.drop offset).take 2) = kind
        generalize BigEndian.decode ((datagram.drop (offset + 2)).take 2) = size
        have next := nextMultipleOf_four size
        by_cases long : datagram.length < offset + 4 + nextMultipleOf size 4
        · rw [if_pos long, if_pos long]
          exact ⟨rfl, rfl⟩
        rw [if_neg long, if_neg long]
        have later : ∀ fingerprint, _ := fun fingerprint =>
          inductionHypothesis (datagram.length - (offset + 4 + nextMultipleOf size 4)) (by omega)
            fingerprint (by omega) rfl
        by_cases isFingerprint : kind = fingerprintKind
        · rw [if_pos isFingerprint, if_pos isFingerprint]
          by_cases misplaced : size ≠ 4 ∨ offset + 4 + nextMultipleOf size 4 ≠ datagram.length
          · rw [if_pos misplaced, if_pos misplaced]
            exact ⟨rfl, rfl⟩
          rw [if_neg misplaced, if_neg misplaced, slice_within rest (by omega) (by omega),
            slice_within rest (by omega) (by omega), slice_eq (by omega) (by omega),
            slice_eq (by omega) (by omega)]
          dsimp only
          split
          · exact ⟨rfl, rfl⟩
          · exact later true
        · rw [if_neg isFingerprint, if_neg isFingerprint]
          split
          · exact ⟨rfl, rfl⟩
          · exact later fingerprint
      · rw [if_neg more, if_neg more]
        exact ⟨rfl, rfl⟩

/-! ### Accepted datagrams are binding requests -/

/-- The attribute that stands at an offset. -/
def attributeAt (datagram : Bytes) (offset kind size : Nat) : Attribute :=
  ⟨kind, (datagram.drop (offset + 4)).take size,
    (datagram.drop (offset + 4 + size)).take (nextMultipleOf size 4 - size)⟩

/-- What the loop takes as an attribute is the bytes of one. -/
theorem take_attribute {datagram : Bytes} {offset kind size : Nat}
    (readsKind : readU16 datagram offset = some kind)
    (readsSize : readU16 datagram (offset + 2) = some size)
    (inside : offset + 4 + nextMultipleOf size 4 ≤ datagram.length) :
    datagram.take (offset + 4 + nextMultipleOf size 4) =
        datagram.take offset ++ (attributeAt datagram offset kind size).bytes ∧
      (attributeAt datagram offset kind size).value.length = size ∧
      (attributeAt datagram offset kind size).padding.length = nextMultipleOf size 4 - size := by
  have next := nextMultipleOf_four size
  have value : (attributeAt datagram offset kind size).value.length = size := by
    show ((datagram.drop (offset + 4)).take size).length = size
    rw [List.length_take, List.length_drop]
    omega
  have padding : (attributeAt datagram offset kind size).padding.length =
      nextMultipleOf size 4 - size := by
    show ((datagram.drop (offset + 4 + size)).take (nextMultipleOf size 4 - size)).length = _
    rw [List.length_take, List.length_drop]
    omega
  refine ⟨?_, value, padding⟩
  have split : offset + 4 + nextMultipleOf size 4 =
      offset + 2 + 2 + size + (nextMultipleOf size 4 - size) := by omega
  rw [split, List.take_add, List.take_add, List.take_add, List.take_add, Attribute.bytes, value,
    (take_of_readU16 readsKind).1, (take_of_readU16 readsSize).1]
  simp only [attributeAt, List.append_assoc]

/-- A datagram that ends with a sum that fits ends with a FINGERPRINT. -/
theorem eq_append_fingerprint {datagram : Bytes} {offset : Nat}
    (readsKind : readU16 datagram offset = some fingerprintKind)
    (readsSize : readU16 datagram (offset + 2) = some 4)
    (last : offset + 4 + nextMultipleOf 4 4 = datagram.length)
    (summed : BigEndian.decode ((datagram.drop (offset + 4)).take (nextMultipleOf 4 4)) =
      (fingerprintOf crc32 (datagram.take offset)).toNat) :
    datagram = datagram.take offset ++ fingerprintBytes crc32 (datagram.take offset) := by
  have multiple : nextMultipleOf 4 4 = 4 := rfl
  obtain ⟨taken, value, _⟩ := take_attribute readsKind readsSize (Nat.le_of_eq last)
  rw [last, List.take_length] at taken
  rw [multiple] at summed last
  have sumBytes : (datagram.drop (offset + 4)).take 4 = BigEndian.encode 4
      (fingerprintOf crc32 (datagram.take offset)).toNat := by
    refine BigEndian.eq_encode ?_ summed
    rw [List.length_take, List.length_drop]
    omega
  conv_lhs => rw [taken]
  rw [fingerprintBytes, Attribute.bytes, value]
  simp only [attributeAt, sumBytes, multiple, Nat.sub_self, List.take_zero, List.append_nil]
  rfl

/-- What is accepted from an offset on: attributes to the end, perhaps with a FINGERPRINT
after them. -/
theorem attributes_valid {datagram : Bytes} {offset : Nat} {fingerprint result : Bool}
    (inside : offset ≤ datagram.length)
    (accepted : attributes crc32 datagram datagram.length offset fingerprint =
      some (.valid result)) :
    ∃ optional : List Attribute, (∀ item ∈ optional, item.Optional) ∧
      ((result = fingerprint ∧
          datagram = datagram.take offset ++ optional.flatMap Attribute.bytes) ∨
        (result = true ∧
          datagram = datagram.take offset ++ optional.flatMap Attribute.bytes ++
            fingerprintBytes crc32 (datagram.take offset ++ optional.flatMap Attribute.bytes))) := by
  induction left : datagram.length - offset using Nat.strong_induction_on
      generalizing offset fingerprint with
  | h left inductionHypothesis =>
      rw [attributes.eq_def] at accepted
      by_cases more : offset < datagram.length
      · rw [if_pos more] at accepted
        split at accepted
        · rename_i kind size readsKind readsSize
          have next := nextMultipleOf_four size
          by_cases long : datagram.length < offset + 4 + nextMultipleOf size 4
          · rw [if_pos long] at accepted
            cases accepted
          rw [if_neg long] at accepted
          obtain ⟨taken, value, padding⟩ :=
            take_attribute readsKind readsSize (Nat.le_of_not_lt long)
          by_cases isFingerprint : kind = fingerprintKind
          · rw [if_pos isFingerprint] at accepted
            by_cases misplaced : size ≠ 4 ∨ offset + 4 + nextMultipleOf size 4 ≠ datagram.length
            · rw [if_pos misplaced] at accepted
              cases accepted
            rw [if_neg misplaced] at accepted
            rw [not_or, not_not, not_not] at misplaced
            obtain ⟨four, last⟩ := misplaced
            split at accepted
            · rename_i sum covered isSum isCovered
              obtain ⟨_, _, rfl⟩ := slice_eq_some.mp isSum
              obtain ⟨_, _, rfl⟩ := slice_eq_some.mp isCovered
              split at accepted
              · cases accepted
              · rename_i summed
                -- The loop ends behind the FINGERPRINT.
                rw [attributes.eq_def, last, if_neg (Nat.lt_irrefl _)] at accepted
                obtain rfl : true = result := Attributes.valid.inj (Option.some.inj accepted)
                rw [not_not, Nat.add_sub_cancel_left, List.drop_zero, Nat.sub_zero] at summed
                subst four isFingerprint
                refine ⟨[], fun item member => absurd member List.not_mem_nil, .inr ⟨rfl, ?_⟩⟩
                rw [List.flatMap_nil, List.append_nil]
                exact eq_append_fingerprint crc32 readsKind readsSize last summed
            · cases accepted
          · rw [if_neg isFingerprint] at accepted
            split at accepted
            · cases accepted
            · rename_i optionalKind
              obtain ⟨optional, valid, ends⟩ := inductionHypothesis
                (datagram.length - (offset + 4 + nextMultipleOf size 4)) (by omega) (by omega)
                accepted rfl
              have first : (attributeAt datagram offset kind size).Optional := by
                refine ⟨⟨Nat.le_of_not_lt optionalKind, (take_of_readU16 readsKind).2.1⟩,
                  isFingerprint, ?_, ?_⟩
                · rw [value]
                  exact (take_of_readU16 readsSize).2.1
                · rw [value, padding]
                  omega
              refine ⟨attributeAt datagram offset kind size :: optional,
                List.forall_mem_cons.mpr ⟨first, valid⟩, ?_⟩
              rw [taken] at ends
              rw [List.flatMap_cons]
              simp only [List.append_assoc] at ends ⊢
              exact ends
        · cases accepted
      · rw [if_neg more] at accepted
        obtain rfl : fingerprint = result := Attributes.valid.inj (Option.some.inj accepted)
        have whole : datagram.take offset = datagram := List.take_of_length_le (Nat.le_of_not_lt more)
        exact ⟨[], fun item member => absurd member List.not_mem_nil,
          .inl ⟨rfl, by rw [whole, List.flatMap_nil, List.append_nil]⟩⟩

/-- The header of a datagram that passes. -/
theorem take_header {datagram : Bytes} (passed : header datagram datagram.length = some true) :
    20 ≤ datagram.length ∧ datagram.length ≤ 512 ∧ datagram.length % 4 = 0 ∧
      datagram.take 20 = [0, 1] ++ BigEndian.encode 2 (datagram.length - 20) ++ magicCookie ++
        (datagram.drop 8).take 12 := by
  unfold header at passed
  by_cases outside : ¬ (20 ≤ datagram.length ∧ datagram.length ≤ 512)
  · rw [if_pos outside] at passed
    cases passed
  rw [if_neg outside] at passed
  rw [not_not] at outside
  split at passed
  · rename_i kind cookie size isKind isCookie readsSize
    obtain ⟨_, _, rfl⟩ := slice_eq_some.mp isKind
    obtain ⟨_, _, rfl⟩ := slice_eq_some.mp isCookie
    simp only [Option.some.injEq, Bool.and_eq_true, decide_eq_true_eq] at passed
    obtain ⟨⟨⟨kind, cookie⟩, long⟩, words⟩ := passed
    refine ⟨outside.1, outside.2, words, ?_⟩
    have parts : (20 : Nat) = 0 + 2 + 2 + 4 + 12 := rfl
    have kindBytes : (datagram.drop 0).take 2 = [0, 1] := kind
    have cookieBytes : (datagram.drop (0 + 2 + 2)).take 4 = magicCookie := cookie
    have sizeBytes : (datagram.drop (0 + 2)).take 2 = BigEndian.encode 2 (datagram.length - 20) := by
      rw [← long, Nat.add_sub_cancel]
      exact (take_of_readU16 readsSize).1
    conv_lhs => rw [parts]
    rw [List.take_add, List.take_add, List.take_add, List.take_add, kindBytes, sizeBytes,
      cookieBytes]
    rfl
  · cases passed

/-- What is accepted is a binding request. -/
theorem bindingRequest_of_valid {datagram : Bytes} {fingerprint : Bool}
    (passed : header datagram datagram.length = some true)
    (accepted : attributes crc32 datagram datagram.length 20 false = some (.valid fingerprint)) :
    BindingRequest crc32 datagram fingerprint := by
  obtain ⟨least, most, words, start⟩ := take_header passed
  obtain ⟨optional, valid, ends⟩ := attributes_valid crc32 least accepted
  have long : ((datagram.drop 8).take 12).length = 12 := by
    rw [List.length_take, List.length_drop]
    omega
  refine ⟨(datagram.drop 8).take 12, optional, long, valid, least, most, ?_⟩
  rw [start] at ends
  rcases ends with ⟨rfl, whole⟩ | ⟨rfl, whole⟩
  · rw [if_neg Bool.false_ne_true, List.append_nil]
    exact whole
  · rw [if_pos rfl]
    exact whole

/-! ### Binding requests are accepted -/

theorem decode_take_encode {width value : Nat} (rest : Bytes) (fits : value < 256 ^ width) :
    BigEndian.decode ((BigEndian.encode width value ++ rest).take width) = value := by
  have long := BigEndian.encode_length width value
  rw [List.take_append_of_le_length (by rw [long]), List.take_of_length_le (by rw [long]),
    BigEndian.decode_encode fits]

/-- A number that stands behind a front is read there. -/
theorem readU16_append {value : Nat} (front rest : Bytes) (fits : value < 256 ^ 2) :
    readU16 (front ++ (BigEndian.encode 2 value ++ rest)) front.length = some value := by
  rw [readU16_eq (by simp), List.drop_left, decode_take_encode rest fits]

theorem Attribute.length_bytes {item : Attribute} (optional : item.Optional) :
    item.bytes.length = 4 + nextMultipleOf item.value.length 4 := by
  have padded := optional.padded
  simp only [Attribute.bytes, List.length_append, BigEndian.encode_length]
  omega

/-- The loop passes over an attribute. -/
theorem attributes_append (front rest : Bytes) {item : Attribute} (optional : item.Optional)
    (fingerprint : Bool) :
    attributes crc32 (front ++ item.bytes ++ rest) (front ++ item.bytes ++ rest).length
        front.length fingerprint =
      attributes crc32 (front ++ item.bytes ++ rest) (front ++ item.bytes ++ rest).length
        (front ++ item.bytes).length fingerprint := by
  have long := Attribute.length_bytes optional
  have kind : readU16 (front ++ item.bytes ++ rest) front.length = some item.kind := by
    have split : front ++ item.bytes ++ rest = front ++ (BigEndian.encode 2 item.kind ++
        (BigEndian.encode 2 item.value.length ++ (item.value ++ (item.padding ++ rest)))) := by
      simp only [Attribute.bytes, List.append_assoc]
    rw [split]
    exact readU16_append front _ optional.optional.2
  have size : readU16 (front ++ item.bytes ++ rest) (front.length + 2) =
      some item.value.length := by
    have split : front ++ item.bytes ++ rest = (front ++ BigEndian.encode 2 item.kind) ++
        (BigEndian.encode 2 item.value.length ++ (item.value ++ (item.padding ++ rest))) := by
      simp only [Attribute.bytes, List.append_assoc]
    have offset : front.length + 2 = (front ++ BigEndian.encode 2 item.kind).length := by simp
    rw [split, offset]
    exact readU16_append _ _ optional.short
  have next : front.length + 4 + nextMultipleOf item.value.length 4 =
      (front ++ item.bytes).length := by
    rw [List.length_append, long]
    omega
  have more : front.length < (front ++ item.bytes ++ rest).length := by
    rw [List.length_append, List.length_append, long]
    omega
  have inside : ¬ (front ++ item.bytes ++ rest).length < (front ++ item.bytes).length := by
    rw [List.length_append]
    omega
  rw [attributes.eq_def, if_pos more, kind, size]
  dsimp only
  rw [next, if_neg inside, if_neg optional.other, if_neg (Nat.not_lt.mpr optional.optional.1)]

/-- The loop passes over all attributes. -/
theorem attributes_flatMap (front rest : Bytes) {optional : List Attribute}
    (valid : ∀ item ∈ optional, item.Optional) (fingerprint : Bool) :
    attributes crc32 (front ++ optional.flatMap Attribute.bytes ++ rest)
        (front ++ optional.flatMap Attribute.bytes ++ rest).length front.length fingerprint =
      attributes crc32 (front ++ optional.flatMap Attribute.bytes ++ rest)
        (front ++ optional.flatMap Attribute.bytes ++ rest).length
        (front ++ optional.flatMap Attribute.bytes).length fingerprint := by
  induction optional generalizing front with
  | nil => rw [List.flatMap_nil, List.append_nil]
  | cons item others inductionHypothesis =>
      have first := attributes_append crc32 front (others.flatMap Attribute.bytes ++ rest)
        (valid item List.mem_cons_self) fingerprint
      have later := inductionHypothesis (front ++ item.bytes)
        fun other member => valid other (List.mem_cons_of_mem _ member)
      rw [List.flatMap_cons]
      simp only [List.append_assoc] at first later ⊢
      exact first.trans later

/-- The loop accepts a FINGERPRINT at the end. -/
theorem attributes_fingerprint (covered : Bytes) (fingerprint : Bool) :
    attributes crc32 (covered ++ fingerprintBytes crc32 covered)
      (covered ++ fingerprintBytes crc32 covered).length covered.length fingerprint =
        some (.valid true) := by
  have split : covered ++ fingerprintBytes crc32 covered = covered ++ (BigEndian.encode 2
      fingerprintKind ++ (BigEndian.encode 2 4 ++
        BigEndian.encode 4 (fingerprintOf crc32 covered).toNat)) := rfl
  have kind : readU16 (covered ++ fingerprintBytes crc32 covered) covered.length =
      some fingerprintKind := by
    rw [split]
    exact readU16_append covered _ (by decide)
  have size : readU16 (covered ++ fingerprintBytes crc32 covered) (covered.length + 2) = some 4 := by
    have offset : covered.length + 2 = (covered ++ BigEndian.encode 2 fingerprintKind).length := by
      simp
    rw [split, ← List.append_assoc, offset]
    exact readU16_append _ _ (by decide)
  have long : (covered ++ fingerprintBytes crc32 covered).length = covered.length + 8 := by
    simp [fingerprintBytes]
  have multiple : nextMultipleOf 4 4 = 4 := rfl
  have sum : slice (covered ++ fingerprintBytes crc32 covered) (covered.length + 4)
      (covered.length + 8) = some (BigEndian.encode 4 (fingerprintOf crc32 covered).toNat) := by
    rw [slice_eq (by omega) (by omega)]
    have parts : covered ++ fingerprintBytes crc32 covered = (covered ++ [0x80, 0x28, 0, 4]) ++
        BigEndian.encode 4 (fingerprintOf crc32 covered).toNat := by
      rw [fingerprintBytes, List.append_assoc]
    have offset : covered.length + 4 = (covered ++ [0x80, 0x28, 0, 4] : Bytes).length := by simp
    have width : covered.length + 8 - (covered.length + 4) = 4 := by omega
    rw [width, offset, parts, List.drop_left, List.take_of_length_le (by simp)]
  have front : slice (covered ++ fingerprintBytes crc32 covered) 0 covered.length =
      some covered := by
    rw [slice_eq (by omega) (by omega), List.drop_zero, Nat.sub_zero, List.take_left]
  have ends : covered.length + 4 + 4 = covered.length + 8 := by omega
  rw [attributes.eq_def, if_pos (by omega), kind, size]
  dsimp only
  rw [multiple, ends, if_neg (by omega), if_pos rfl, if_neg (by omega), sum, front]
  dsimp only
  rw [BigEndian.decode_encode (UInt32.toNat_lt _), if_neg (not_not.mpr rfl), attributes.eq_def,
    if_neg (by omega)]

theorem words_flatMap {optional : List Attribute} (valid : ∀ item ∈ optional, item.Optional) :
    (optional.flatMap Attribute.bytes).length % 4 = 0 := by
  induction optional with
  | nil => rfl
  | cons item others inductionHypothesis =>
      have long := Attribute.length_bytes (valid item List.mem_cons_self)
      have next := nextMultipleOf_four item.value.length
      have rest := inductionHypothesis fun other member => valid other (List.mem_cons_of_mem _ member)
      rw [List.flatMap_cons, List.length_append]
      omega

/-- A binding request passes. -/
theorem valid_of_bindingRequest {datagram : Bytes} {fingerprint : Bool}
    (request : BindingRequest crc32 datagram fingerprint) :
    header datagram datagram.length = some true ∧
      attributes crc32 datagram datagram.length 20 false = some (.valid fingerprint) := by
  obtain ⟨transaction, optional, twelve, valid, least, most, whole⟩ := request
  have start : ([0, 1] ++ BigEndian.encode 2 (datagram.length - 20) ++ magicCookie ++
      transaction : Bytes).length = 20 := by
    simp [twelve, magicCookie]
  have words := words_flatMap valid
  constructor
  · have size : readU16 datagram 2 = some (datagram.length - 20) := by
      have split := whole
      simp only [requestBytes, List.append_assoc] at split
      conv_lhs => rw [split]
      exact readU16_append [0, 1] _ (by omega)
    have kind : (datagram.drop 0).take (2 - 0) = [0, 1] := by
      conv_lhs => rw [whole]
      rfl
    have cookie : (datagram.drop 4).take (8 - 4) = magicCookie := by
      have split := whole
      simp only [requestBytes, List.append_assoc] at split
      conv_lhs => rw [split]
      rfl
    have length : datagram.length % 4 = 0 := by
      have total := congrArg List.length whole
      cases fingerprint with
      | false =>
          rw [if_neg Bool.false_ne_true, List.append_nil, requestBytes, List.length_append,
            start] at total
          omega
      | true =>
          have eight : (fingerprintBytes crc32
              (requestBytes (datagram.length - 20) transaction optional)).length = 8 := by
            simp [fingerprintBytes]
          rw [if_pos rfl, List.length_append, eight, requestBytes, List.length_append, start] at total
          omega
    rw [header, if_neg (not_not.mpr ⟨least, most⟩), slice_eq (by omega) (by omega),
      slice_eq (by omega) (by omega), size, kind, cookie]
    dsimp only
    simp only [decide_true, Bool.true_and, Option.some.injEq, Bool.and_eq_true, decide_eq_true_eq]
    exact ⟨by omega, length⟩
  · cases fingerprint with
    | false =>
        rw [if_neg Bool.false_ne_true] at whole
        have passed := attributes_flatMap crc32 ([0, 1] ++ BigEndian.encode 2
          (datagram.length - 20) ++ magicCookie ++ transaction) [] valid false
        rw [requestBytes] at whole
        rw [start, ← whole] at passed
        rw [passed]
        have ends := congrArg List.length whole
        rw [List.append_nil] at ends
        rw [← ends, attributes.eq_def, if_neg (Nat.lt_irrefl _)]
    | true =>
        rw [if_pos rfl] at whole
        have passed := attributes_flatMap crc32 ([0, 1] ++ BigEndian.encode 2
          (datagram.length - 20) ++ magicCookie ++ transaction)
          (fingerprintBytes crc32 (requestBytes (datagram.length - 20) transaction optional))
          valid false
        have last := attributes_fingerprint crc32
          (requestBytes (datagram.length - 20) transaction optional) false
        rw [← whole] at last
        rw [start] at passed
        unfold requestBytes at whole last passed
        rw [← whole] at passed
        exact passed.trans last

end Cairn.Beacon.Stun
