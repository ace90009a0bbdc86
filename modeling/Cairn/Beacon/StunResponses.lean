import Cairn.Beacon.StunMessages

/-!
Owns what a response says: how a client reads the mapped address, and that every response
repeats its request's transaction, has a correct length, maps to the source of the request
and carries a valid FINGERPRINT when the request had one.
-/

set_option autoImplicit false

namespace Cairn.Beacon.Stun

open Cairn.Library Cairn.Library.IpAddresses

/-! ### Addresses from octets -/

/-- The address of four octets. -/
def ipv4Of (bytes : Bytes) : Option IpAddr :=
  if four : (bytes.map fun byte => (⟨byte.toNat, byte.toNat_lt⟩ : Fin 256)).length = 4 then
    some (.v4 ⟨_, four⟩)
  else none

/-- The segments of octets, two for each. -/
def segmentsOf : Bytes → List (Fin 65536)
  | high :: low :: rest =>
      ⟨high.toNat * 256 + low.toNat, by
        have first := high.toNat_lt
        have other := low.toNat_lt
        omega⟩ :: segmentsOf rest
  | _ => []

/-- The address of sixteen octets. -/
def ipv6Of (bytes : Bytes) : Option IpAddr :=
  if eight : (segmentsOf bytes).length = 8 then some (.v6 ⟨_, eight⟩) else none

theorem toNat_octet (octet : Fin 256) : (UInt8.ofNat octet.val).toNat = octet.val := by
  rw [UInt8.toNat_ofNat']
  exact Nat.mod_eq_of_lt octet.isLt

theorem ipv4Of_octets (address : Ipv4) : ipv4Of (octets (.v4 address)) = some (.v4 address) := by
  have same : (octets (.v4 address)).map
      (fun byte => (⟨byte.toNat, byte.toNat_lt⟩ : Fin 256)) = address.octets := by
    rw [octets, List.map_map]
    refine (List.map_congr_left fun octet _ => ?_).trans (List.map_id _)
    exact Fin.ext (toNat_octet octet)
  unfold ipv4Of
  rw [dif_pos (by rw [same]; exact address.four)]
  simp only [same]

theorem segmentsOf_octets (segments : List (Fin 65536)) :
    segmentsOf ((segments.flatMap Ipv6.octetsOf).map fun octet => UInt8.ofNat octet.val) =
      segments := by
  induction segments with
  | nil => rfl
  | cons segment rest inductionHypothesis =>
      rw [List.flatMap_cons, List.map_append]
      show segmentsOf (UInt8.ofNat (segment.val / 256) :: UInt8.ofNat (segment.val % 256) ::
        (rest.flatMap Ipv6.octetsOf).map fun octet => UInt8.ofNat octet.val) = _
      have high := toNat_octet ⟨segment.val / 256, by omega⟩
      have low := toNat_octet ⟨segment.val % 256, by omega⟩
      rw [segmentsOf, inductionHypothesis]
      refine congrArg (· :: rest) (Fin.ext ?_)
      show (UInt8.ofNat (segment.val / 256)).toNat * 256 +
        (UInt8.ofNat (segment.val % 256)).toNat = segment.val
      rw [high, low]
      show segment.val / 256 * 256 + segment.val % 256 = segment.val
      omega

theorem ipv6Of_octets (address : Ipv6) : ipv6Of (octets (.v6 address)) = some (.v6 address) := by
  have same := segmentsOf_octets address.segments
  unfold ipv6Of octets
  rw [dif_pos (by rw [same]; exact address.eight)]
  simp only [same]

/-- An address has 4 or 16 octets. -/
def addressLength (ip : IpAddr) : Nat := if isIpv4 ip then 4 else 16

theorem length_octets (ip : IpAddr) : (octets ip).length = addressLength ip := by
  cases ip with
  | v4 address =>
      show (address.octets.map _).length = 4
      rw [List.length_map, address.four]
  | v6 address =>
      show ((address.segments.flatMap Ipv6.octetsOf).map _).length = 16
      have eight := address.eight
      have pairs : ∀ segments : List (Fin 65536),
          (segments.flatMap Ipv6.octetsOf).length = 2 * segments.length := by
        intro segments
        induction segments with
        | nil => rfl
        | cons segment rest inductionHypothesis =>
            rw [List.flatMap_cons, List.length_append, inductionHypothesis, List.length_cons]
            show 2 + _ = _
            omega
      rw [List.length_map, pairs, eight]

/-! ### What a client reads -/

/-- Mixing with a mask twice. -/
theorem zipWith_xor_cancel {bytes mask : Bytes} (covered : bytes.length ≤ mask.length) :
    List.zipWith (· ^^^ ·) (List.zipWith (· ^^^ ·) bytes mask) mask = bytes := by
  induction bytes generalizing mask with
  | nil => rfl
  | cons byte rest inductionHypothesis =>
      cases mask with
      | nil => cases covered
      | cons first others =>
          have back : byte ^^^ first ^^^ first = byte := by
            rw [UInt8.xor_assoc, UInt8.xor_self, UInt8.xor_zero]
          rw [List.zipWith_cons_cons, List.zipWith_cons_cons, back,
            inductionHypothesis (Nat.le_of_succ_le_succ covered)]

/-- What a client reads from a response: the XOR-MAPPED-ADDRESS behind the header. -/
def mappedAddress (message : Bytes) : Option Source :=
  let item := message.drop 20
  let port := UInt16.ofNat (BigEndian.decode ((item.drop 6).take 2)) ^^^ 0x2112
  if item.take 6 = [0, 0x20, 0, 8, 0, 1] then
    (ipv4Of (List.zipWith (· ^^^ ·) ((item.drop 8).take 4) ((message.drop 4).take 4))).map
      fun ip => ⟨ip, port⟩
  else if item.take 6 = [0, 0x20, 0, 20, 0, 2] then
    (ipv6Of (List.zipWith (· ^^^ ·) ((item.drop 8).take 16) ((message.drop 4).take 16))).map
      fun ip => ⟨ip, port⟩
  else none

variable (crc32 : Bytes → UInt32)

/-- A response to a request from a source. -/
structure Answers (request : Bytes) (source : Source) (fingerprint : Bool) (answer : Bytes) :
    Prop where
  success : answer.take 2 = [1, 1]
  length : BigEndian.decode ((answer.drop 2).take 2) + 20 = answer.length
  /-- The magic cookie and the transaction id. -/
  transaction : (answer.drop 4).take 16 = (request.drop 4).take 16
  mapped : mappedAddress answer = some source
  /-- Nothing follows the mapped address but a valid FINGERPRINT when the request had one. -/
  fingerprinted : ∃ message, message.length = 28 + addressLength source.ip ∧
    answer = message ++ if fingerprint then fingerprintBytes crc32 message else []

/-- The octets that the mask covers: for IPv4 the cookie, for IPv6 the transaction id too. -/
def maskOf (request : Bytes) (ip : IpAddr) : Bytes := (request.drop 4).take (addressLength ip)

/-- The attribute of a mapped address. -/
def mappedBytes (request : Bytes) (source : Source) : Bytes :=
  [0, 0x20] ++ BigEndian.encode 2 (4 + addressLength source.ip) ++
    [0, if isIpv4 source.ip then 1 else 2] ++
    BigEndian.encode 2 (source.port ^^^ 0x2112).toNat ++
    List.zipWith (· ^^^ ·) (octets source.ip) (maskOf request source.ip)

/-- The response without its FINGERPRINT. -/
def messageOf (request : Bytes) (source : Source) (fingerprint : Bool) : Bytes :=
  [1, 1] ++ BigEndian.encode 2 (8 + addressLength source.ip + if fingerprint then 8 else 0) ++
    (request.drop 4).take 16 ++ mappedBytes request source

theorem response_eq {request : Bytes} (rest : Bytes) (long : 20 ≤ request.length) (source : Source)
    (fingerprint : Bool) :
    response crc32 (request ++ rest) source fingerprint =
      some (messageOf request source fingerprint ++
        if fingerprint then fingerprintBytes crc32 (messageOf request source fingerprint) else []) := by
  unfold response
  rw [slice_within rest (by omega) long, slice_within rest (by omega) (by omega)]
  have message : ([1, 1] ++ BigEndian.encode 2 ((if isIpv4 source.ip then 8 else 20) + 4 +
      if fingerprint then 8 else 0) ++ (request.drop 4).take (20 - 4) ++ [0, 0x20] ++
      BigEndian.encode 2 (if isIpv4 source.ip then 8 else 20) ++
      [0, if isIpv4 source.ip then 1 else 2] ++
      BigEndian.encode 2 (source.port ^^^ 0x2112).toNat ++
      List.zipWith (· ^^^ ·) (octets source.ip)
        (if isIpv4 source.ip then (request.drop 4).take (8 - 4)
          else (request.drop 4).take (20 - 4)) : Bytes) =
      messageOf request source fingerprint := by
    unfold messageOf mappedBytes maskOf addressLength
    simp only [List.append_assoc]
    cases isIpv4 source.ip <;> rfl
  dsimp only
  rw [message]
  cases fingerprint with
  | false => simp
  | true => simp only [fingerprintBytes, if_true, List.append_assoc]

theorem port_of_encode (port : UInt16) :
    UInt16.ofNat (BigEndian.decode (BigEndian.encode 2 (port ^^^ 0x2112).toNat)) ^^^ 0x2112 =
      port := by
  rw [BigEndian.decode_encode (UInt16.toNat_lt _), UInt16.ofNat_toNat, UInt16.xor_assoc,
    UInt16.xor_self, UInt16.xor_zero]

/-- A client reads the source back, whatever follows the attribute. -/
theorem mappedAddress_eq {request header : Bytes} (long : 20 ≤ request.length)
    (twenty : header.length = 20) (same : (header.drop 4).take 16 = (request.drop 4).take 16)
    (source : Source) (rest : Bytes) :
    mappedAddress (header ++ (mappedBytes request source ++ rest)) = some source := by
  have item : (header ++ (mappedBytes request source ++ rest)).drop 20 =
      mappedBytes request source ++ rest := by
    rw [← twenty, List.drop_left]
  have mask : ((header ++ (mappedBytes request source ++ rest)).drop 4).take
      (addressLength source.ip) = maskOf request source.ip := by
    have width : addressLength source.ip = min (addressLength source.ip) 16 := by
      unfold addressLength
      split <;> rfl
    rw [List.drop_append_of_le_length (by omega), List.take_append_of_le_length
      (by rw [List.length_drop]; omega), maskOf, width, ← List.take_take, same, List.take_take]
  have covered : (octets source.ip).length ≤ (maskOf request source.ip).length := by
    rw [length_octets, maskOf, List.length_take, List.length_drop]
    unfold addressLength
    split <;> omega
  have length : (List.zipWith (· ^^^ ·) (octets source.ip) (maskOf request source.ip)).length =
      addressLength source.ip := by
    rw [List.length_zipWith, Nat.min_eq_left covered, length_octets]
  have port := port_of_encode source.port
  have address : (List.zipWith (· ^^^ ·) (octets source.ip) (maskOf request source.ip) ++ rest).take
      (addressLength source.ip) =
      List.zipWith (· ^^^ ·) (octets source.ip) (maskOf request source.ip) := by
    rw [← length, List.take_left]
  have back := zipWith_xor_cancel covered
  obtain ⟨ip, sourcePort⟩ := source
  unfold mappedAddress
  dsimp only at item mask address back port ⊢
  rw [item]
  cases ip with
  | v4 ip =>
      have port' : UInt16.ofNat (BigEndian.decode (((mappedBytes request ⟨.v4 ip, sourcePort⟩ ++
          rest).drop 6).take 2)) ^^^ 0x2112 = sourcePort := port
      have address' : ((mappedBytes request ⟨.v4 ip, sourcePort⟩ ++ rest).drop 8).take 4 =
          List.zipWith (· ^^^ ·) (octets (.v4 ip)) (maskOf request (.v4 ip)) := address
      have mask' : ((header ++ (mappedBytes request ⟨.v4 ip, sourcePort⟩ ++ rest)).drop 4).take 4 =
          maskOf request (.v4 ip) := mask
      have six : (mappedBytes request ⟨.v4 ip, sourcePort⟩ ++ rest).take 6 =
          [0, 0x20, 0, 8, 0, 1] := by
        have size : BigEndian.encode 2 8 = [0, 8] := by decide
        show [0, 0x20] ++ BigEndian.encode 2 8 ++ [0, 1] = _
        rw [size]
        rfl
      rw [if_pos six, port', address', mask', back, ipv4Of_octets]
      rfl
  | v6 ip =>
      have port' : UInt16.ofNat (BigEndian.decode (((mappedBytes request ⟨.v6 ip, sourcePort⟩ ++
          rest).drop 6).take 2)) ^^^ 0x2112 = sourcePort := port
      have address' : ((mappedBytes request ⟨.v6 ip, sourcePort⟩ ++ rest).drop 8).take 16 =
          List.zipWith (· ^^^ ·) (octets (.v6 ip)) (maskOf request (.v6 ip)) := address
      have mask' : ((header ++ (mappedBytes request ⟨.v6 ip, sourcePort⟩ ++ rest)).drop 4).take 16 =
          maskOf request (.v6 ip) := mask
      have six : (mappedBytes request ⟨.v6 ip, sourcePort⟩ ++ rest).take 6 =
          [0, 0x20, 0, 20, 0, 2] := by
        have size : BigEndian.encode 2 20 = [0, 20] := by decide
        show [0, 0x20] ++ BigEndian.encode 2 20 ++ [0, 2] = _
        rw [size]
        rfl
      have other : ¬ (mappedBytes request ⟨.v6 ip, sourcePort⟩ ++ rest).take 6 =
          [0, 0x20, 0, 8, 0, 1] := by
        rw [six]
        decide
      rw [if_neg other, if_pos six, port', address', mask', back, ipv6Of_octets]
      rfl

/-- A response of the responder says what it should. -/
theorem answers_messageOf {request : Bytes} (long : 20 ≤ request.length) (source : Source)
    (fingerprint : Bool) :
    Answers crc32 request source fingerprint (messageOf request source fingerprint ++
      if fingerprint then fingerprintBytes crc32 (messageOf request source fingerprint) else []) := by
  have transaction : ((request.drop 4).take 16).length = 16 := by
    rw [List.length_take, List.length_drop]
    omega
  have mask : (maskOf request source.ip).length = addressLength source.ip := by
    unfold maskOf addressLength
    rw [List.length_take, List.length_drop]
    split <;> omega
  have width : addressLength source.ip = 4 ∨ addressLength source.ip = 16 := by
    unfold addressLength
    split
    · exact .inl rfl
    · exact .inr rfl
  have message : (messageOf request source fingerprint).length = 28 + addressLength source.ip := by
    simp only [messageOf, mappedBytes, List.length_append, BigEndian.encode_length,
      List.length_zipWith, transaction, mask, length_octets, List.length_cons, List.length_nil]
    omega
  have rest : (if fingerprint then
      fingerprintBytes crc32 (messageOf request source fingerprint) else []).length =
      if fingerprint then 8 else 0 := by
    cases fingerprint with
    | false => rfl
    | true => simp [fingerprintBytes]
  refine ⟨rfl, ?_, ?_, ?_, ⟨_, message, rfl⟩⟩
  · have field : ((messageOf request source fingerprint ++ if fingerprint then
        fingerprintBytes crc32 (messageOf request source fingerprint) else []).drop 2).take 2 =
        BigEndian.encode 2 (8 + addressLength source.ip + if fingerprint then 8 else 0) := rfl
    rw [field, BigEndian.decode_encode, List.length_append, message, rest]
    · omega
    · split <;> omega
  · have behind : (messageOf request source fingerprint ++ if fingerprint then
        fingerprintBytes crc32 (messageOf request source fingerprint) else []).drop 4 =
        (request.drop 4).take 16 ++ (mappedBytes request source ++ if fingerprint then
          fingerprintBytes crc32 (messageOf request source fingerprint) else []) := by
      unfold messageOf
      simp only [List.append_assoc]
      rfl
    rw [behind, List.take_append_of_le_length (Nat.le_of_eq transaction.symm),
      List.take_of_length_le (Nat.le_of_eq transaction)]
  · have split : messageOf request source fingerprint ++ (if fingerprint then
        fingerprintBytes crc32 (messageOf request source fingerprint) else []) =
        ([1, 1] ++ BigEndian.encode 2
          (8 + addressLength source.ip + if fingerprint then 8 else 0) ++
          (request.drop 4).take 16) ++ (mappedBytes request source ++ if fingerprint then
            fingerprintBytes crc32 (messageOf request source fingerprint) else []) := by
      rw [← List.append_assoc]
      rfl
    rw [split]
    refine mappedAddress_eq long (by simp [transaction]) ?_ source _
    exact List.take_of_length_le (Nat.le_of_eq transaction)

end Cairn.Beacon.Stun
