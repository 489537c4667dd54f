import TinySql.Codec.Key

/-!
# Decoding keys and values

`util/codec/codec.go`: `DecodeOne` reads the datum after a flag byte, `Decode` reads datums until
the bytes end, and `CutOne` cuts the first datum off by the length `peek` finds for it without
decoding it, a second parser of the same formats.

Both read back what `encode` wrote, comparable or not (`decode_encode`, `cutOne_encodeDatum`), for
datums of the kinds the row and index codecs store, up to the kinds the decoder gives back: a
string as bytes, which are one kind here, and a `Float32` as a `Float64`. A double comes back with
its bits except that `-0` comes back as `+0`, and only when it is no NaN: `EncodeFloat` inverts a
NaN whose sign bit is clear, and `DecodeFloat` then reads it as a positive double
(`decode_encodeKey_nan`).
-/

namespace TinySql.Codec

open TinySql.Lib TinySql.Types

def durationFlag : Fin 256 := 7

def errInvalidKey : String := "invalid encoded key"

/-- `DecodeOne`: the datum at the start of `b`, and what follows it. -/
def decodeOne (b : List (Fin 256)) : Except String (List (Fin 256) × Datum) :=
  match b with
  | [] => .error errInvalidKey
  | flag :: b =>
    if flag = intFlag then do
      let (b, v) ← decodeInt b
      return (b, .int64 v)
    else if flag = uintFlag then do
      let (b, v) ← decodeUint b
      return (b, .uint64 v)
    else if flag = varintFlag then do
      let (b, v) ← decodeVarint b
      return (b, .int64 v)
    else if flag = uvarintFlag then do
      let (b, v) ← decodeUvarint b
      return (b, .uint64 v)
    else if flag = floatFlag then do
      let (b, v) ← decodeFloat b
      return (b, .float64 v)
    else if flag = bytesFlag then do
      let (b, v) ← decodeBytes b
      return (b, .bytes v)
    else if flag = compactBytesFlag then do
      let (b, v) ← decodeCompactBytes b
      return (b, .bytes v)
    else if flag = nilFlag then .ok (b, .null)
    else .error "invalid encoded key flag"

/-- The loop of `Decode`; `fuel` bounds the datums read, and each takes at least its flag byte. -/
def decodeLoop : Nat → List (Fin 256) → Except String (List Datum)
  | 0, _ => .ok []
  | fuel + 1, b =>
    if b.length > 0 then do
      let (b, d) ← decodeOne b
      let values ← decodeLoop fuel b
      return d :: values
    else .ok []

/-- `Decode`. -/
def decode (b : List (Fin 256)) : Except String (List Datum) :=
  if b.length < 1 then .error errInvalidKey else decodeLoop b.length b

/-- The loop of `peekBytes` over groups of nine bytes from `offset`; `fuel` bounds the groups. -/
def peekBytesLoop : Nat → List (Fin 256) → Nat → Except String Nat
  | 0, _, _ => .error errInsufficient
  | fuel + 1, b, offset =>
    if b.length < offset + encGroupSize + 1 then .error errInsufficient
    else
      let marker := (b.drop (offset + encGroupSize)).headD 0
      let padCount := encMarker - marker
      let offset := offset + encGroupSize + 1
      if padCount ≠ 0 then .ok offset else peekBytesLoop fuel b offset

/-- `peekBytes`. -/
def peekBytes (b : List (Fin 256)) : Except String Nat :=
  peekBytesLoop b.length b 0

/-- `peekCompactBytes`. -/
def peekCompactBytes (b : List (Fin 256)) : Except String Int :=
  let (v, n) := varint b
  if n < 0 then .error "value larger than 64 bits"
  else if n = 0 then .error errInsufficient
  else if (b.length : Int) < v.toInt + n then .error "insufficient bytes to decode value, expected length"
  else .ok (n + v.toInt)

/-- `peekVarint`. -/
def peekVarint (b : List (Fin 256)) : Except String Int :=
  let (_, n) := varint b
  if n < 0 then .error "value larger than 64 bits" else .ok n

/-- `peekUvarint`. -/
def peekUvarint (b : List (Fin 256)) : Except String Int :=
  let (_, n) := uvarint b
  if n < 0 then .error "value larger than 64 bits" else .ok n

/-- `peek`: the length of the first encoded datum, flag included. -/
def peek (b : List (Fin 256)) : Except String Int :=
  match b with
  | [] => .error errInvalidKey
  | flag :: b =>
    if flag = nilFlag then .ok 1
    else if flag = intFlag ∨ flag = uintFlag ∨ flag = floatFlag ∨ flag = durationFlag then .ok (1 + 8)
    else if flag = bytesFlag then do
      let l ← peekBytes b
      return 1 + l
    else if flag = compactBytesFlag then do
      let l ← peekCompactBytes b
      return 1 + l
    else if flag = varintFlag then do
      let l ← peekVarint b
      return 1 + l
    else if flag = uvarintFlag then do
      let l ← peekUvarint b
      return 1 + l
    else .error "invalid encoded key flag"

/-- `CutOne`: the first encoded datum and what follows it. Slicing by a length outside the bytes
panics in the code. -/
def cutOne (b : List (Fin 256)) : Except String (List (Fin 256) × List (Fin 256)) := do
  let l ← peek b
  if l < 0 ∨ (b.length : Int) < l then .error "runtime error: slice bounds out of range"
  else return (b.take l.toNat, b.drop l.toNat)

/-- The loop of tablecodec's `CutIndexKeyNew`: `length` datums cut off one by one with `CutOne`,
and the bytes after them. -/
def cutLoop : Nat → List (Fin 256) → Except String (List (List (Fin 256)) × List (Fin 256))
  | 0, b => .ok ([], b)
  | length + 1, b => do
    let (val, b) ← cutOne b
    let (values, b) ← cutLoop length b
    return (val :: values, b)


/-! ### Reading back one datum -/

/-- The datums the codecs store, as a Go program can hold them: no bound, no NaN, and a string
whose length is an `int`. -/
def roundTrips : Datum → Bool
  | .null | .int64 _ | .uint64 _ => true
  | .float32 f | .float64 f => !Float64.isNaN f
  | .bytes b => decide (b.length < 2 ^ 63)
  | .minNotNull | .maxValue => false

/-- The datum `DecodeOne` gives back for one `encode` wrote. -/
def decodedDatum : Datum → Datum
  | .float32 f | .float64 f => .float64 (if f = signMask then 0 else f)
  | d => d

theorem decodeOne_encodeDatum (comparable : Bool) {d : Datum} (hd : roundTrips d)
    (rest : List (Fin 256)) :
    decodeOne (encodeDatum comparable d ++ rest) = .ok (rest, decodedDatum d) := by
  cases d with
  | null => rfl
  | int64 i =>
    cases comparable
    · simp [encodeDatum, encodeSignedInt, decodeOne, decodeVarint_encodeVarint, varintFlag, intFlag,
        uintFlag, decodedDatum]
    · simp [encodeDatum, encodeSignedInt, decodeOne, decodeInt_encodeInt, decodedDatum]
  | uint64 u =>
    cases comparable
    · simp [encodeDatum, encodeUnsignedInt, decodeOne, decodeUvarint_encodeUvarint, varintFlag,
        intFlag, uintFlag, uvarintFlag, decodedDatum]
    · simp [encodeDatum, encodeUnsignedInt, decodeOne, decodeUint_encodeUint, intFlag, uintFlag,
        decodedDatum]
  | float32 f | float64 f =>
    have hf : Float64.isNaN f = false := by simpa [roundTrips] using hd
    simp [encodeDatum, decodeOne, decodeFloat_encodeFloat rest hf, intFlag, uintFlag, varintFlag,
      uvarintFlag, floatFlag, decodedDatum]
  | bytes b =>
    have hb : b.length < 2 ^ 63 := by simpa [roundTrips] using hd
    cases comparable
    · simp [encodeDatum, encodeFlaggedBytes, decodeOne, decodeCompactBytes_encodeCompactBytes hb,
        intFlag, uintFlag, varintFlag, uvarintFlag, floatFlag, bytesFlag, compactBytesFlag, decodedDatum]
    · simp [encodeDatum, encodeFlaggedBytes, decodeOne, decodeBytes_encodeBytes, intFlag, uintFlag,
        varintFlag, uvarintFlag, floatFlag, bytesFlag, decodedDatum]
  | minNotNull | maxValue => simp [roundTrips] at hd

theorem peekBytesLoop_encodeBytes {fuel : Nat} {data : List (Fin 256)}
    (hfuel : data.length / encGroupSize < fuel) (pre rest : List (Fin 256)) :
    peekBytesLoop fuel (pre ++ encodeBytes data ++ rest) pre.length =
      .ok (pre.length + (encodeBytes data).length) := by
  induction fuel generalizing data pre with
  | zero => exact absurd hfuel (Nat.not_lt_zero _)
  | succ fuel ih =>
    -- the marker of the first group says whether another follows
    have hstep : ∀ {g : List (Fin 256)}, g.length ≤ encGroupSize → ∀ tail : List (Fin 256),
        peekBytesLoop (fuel + 1) (pre ++ groupWord g ++ tail) pre.length =
          if g.length = encGroupSize then
            peekBytesLoop fuel (pre ++ groupWord g ++ tail) (pre.length + encGroupSize + 1)
          else .ok (pre.length + encGroupSize + 1) := by
      intro g hg tail
      have hlen : (pre ++ groupWord g ++ tail).length ≥ pre.length + encGroupSize + 1 := by
        simp [length_groupWord hg]
        omega
      have hmarker : ((pre ++ groupWord g ++ tail).drop (pre.length + encGroupSize)).headD 0 =
          encMarker - Fin.ofNat 256 (encGroupSize - g.length) := by
        rw [List.append_assoc, List.drop_append, List.drop_eq_nil_of_le (by omega), List.nil_append,
          Nat.add_sub_cancel_left, groupWord_append, List.drop_append, List.length_append,
          List.length_replicate, show g.length + (encGroupSize - g.length) = encGroupSize by omega,
          List.drop_eq_nil_of_le (by simp; omega), List.nil_append, Nat.sub_self, List.drop_zero]
        rfl
      have hpad : (encMarker - (encMarker - Fin.ofNat 256 (encGroupSize - g.length))).val =
          encGroupSize - g.length := by
        simp only [Fin.sub_def, Fin.val_ofNat, encMarker, encGroupSize] at hg ⊢
        omega
      rw [peekBytesLoop, if_neg (by omega)]
      simp only [hmarker]
      by_cases h : g.length = encGroupSize
      · have hzero : encMarker - (encMarker - Fin.ofNat 256 (encGroupSize - g.length)) = 0 :=
          Fin.ext (by rw [hpad, h, Nat.sub_self]; rfl)
        rw [if_neg (not_not.mpr hzero), if_pos h]
      · have hzero : encMarker - (encMarker - Fin.ofNat 256 (encGroupSize - g.length)) ≠ 0 :=
          fun h0 => h (by
            have := congrArg Fin.val h0
            rw [hpad] at this
            simp only [Fin.val_zero] at this
            omega)
        rw [if_pos hzero, if_neg h]
    rw [encodeBytes_eq data]
    split_ifs with h
    · have htake : (data.take encGroupSize).length = encGroupSize := by simp [h]
      have hgroup := length_groupWord htake.le
      have hrest : (data.drop encGroupSize).length / encGroupSize < fuel := by
        rw [List.length_drop]
        simp only [encGroupSize] at hfuel h ⊢
        omega
      have hnext := ih hrest (pre ++ groupWord (data.take encGroupSize))
      rw [show pre ++ (groupWord (data.take encGroupSize) ++ encodeBytes (data.drop encGroupSize)) ++
          rest = pre ++ groupWord (data.take encGroupSize) ++
            (encodeBytes (data.drop encGroupSize) ++ rest) by simp,
        hstep htake.le, if_pos htake,
        show pre.length + encGroupSize + 1 = (pre ++ groupWord (data.take encGroupSize)).length by
          simp [hgroup, Nat.add_assoc],
        ← List.append_assoc, hnext]
      simp [hgroup, Nat.add_assoc]
    · have hg : data.length ≤ encGroupSize := by omega
      rw [hstep hg, if_neg (by omega), length_groupWord hg, Nat.add_assoc]

theorem peekBytes_encodeBytes (data rest : List (Fin 256)) :
    peekBytes (encodeBytes data ++ rest) = .ok (encodeBytes data).length := by
  have hfuel : data.length / encGroupSize < (encodeBytes data ++ rest).length := by
    rw [List.length_append, length_encodeBytes]
    simp only [encGroupSize]
    omega
  rw [peekBytes]
  simpa using peekBytesLoop_encodeBytes hfuel [] rest

theorem peekCompactBytes_encodeCompactBytes {data : List (Fin 256)} (hlen : data.length < 2 ^ 63)
    (rest : List (Fin 256)) :
    peekCompactBytes (encodeCompactBytes data ++ rest) = .ok (encodeCompactBytes data).length := by
  have hn : (Int64.ofNat data.length).toInt = data.length := Int64.toInt_ofNat_of_lt hlen
  have hpos : 0 < (putVarint (Int64.ofNat data.length)).length :=
    List.length_pos_iff.mpr (putVarint_ne_nil _)
  rw [peekCompactBytes, encodeCompactBytes, encodeVarint, List.append_assoc, varint_putVarint]
  simp only [hn, List.length_append]
  rw [if_neg (by omega), if_neg (by omega), if_neg (by omega)]
  push_cast
  rw [Int.add_comm]

theorem peekVarint_putVarint (v : Int64) (rest : List (Fin 256)) :
    peekVarint (putVarint v ++ rest) = .ok (putVarint v).length := by
  rw [peekVarint, varint_putVarint]
  exact if_neg (by omega)

theorem peekUvarint_putUvarint (v : UInt64) (rest : List (Fin 256)) :
    peekUvarint (putUvarint v ++ rest) = .ok (putUvarint v).length := by
  rw [peekUvarint, uvarint_putUvarint]
  exact if_neg (by omega)

/-- `peek` finds the length of an encoded datum without decoding it. -/
theorem peek_encodeDatum (comparable : Bool) {d : Datum} (hd : roundTrips d)
    (rest : List (Fin 256)) :
    peek (encodeDatum comparable d ++ rest) = .ok (encodeDatum comparable d).length := by
  cases d with
  | null => rfl
  | int64 i =>
    cases comparable
    · simp [encodeDatum, encodeSignedInt, peek, encodeVarint, peekVarint_putVarint, nilFlag, intFlag,
        uintFlag, floatFlag, durationFlag, bytesFlag, compactBytesFlag, varintFlag, Int.add_comm]
    · simp [encodeDatum, encodeSignedInt, peek, encodeInt, nilFlag, intFlag]
  | uint64 u =>
    cases comparable
    · simp [encodeDatum, encodeUnsignedInt, peek, encodeUvarint, peekUvarint_putUvarint, nilFlag,
        intFlag, uintFlag, floatFlag, durationFlag, bytesFlag, compactBytesFlag, varintFlag,
        uvarintFlag, Int.add_comm]
    · simp [encodeDatum, encodeUnsignedInt, peek, encodeUint, nilFlag, intFlag, uintFlag]
  | float32 f | float64 f =>
    simp [encodeDatum, peek, encodeFloat, encodeUint, nilFlag, intFlag, uintFlag, floatFlag]
  | bytes b =>
    have hb : b.length < 2 ^ 63 := by simpa [roundTrips] using hd
    cases comparable
    · simp [encodeDatum, encodeFlaggedBytes, peek, peekCompactBytes_encodeCompactBytes hb, nilFlag,
        intFlag, uintFlag, floatFlag, durationFlag, bytesFlag, compactBytesFlag, Int.add_comm]
    · simp [encodeDatum, encodeFlaggedBytes, peek, peekBytes_encodeBytes, nilFlag, intFlag,
        uintFlag, floatFlag, durationFlag, bytesFlag, Int.add_comm]
  | minNotNull | maxValue => simp [roundTrips] at hd

/-- `CutOne` cuts off exactly the encoding of the first datum. -/
theorem cutOne_encodeDatum (comparable : Bool) {d : Datum} (hd : roundTrips d)
    (rest : List (Fin 256)) :
    cutOne (encodeDatum comparable d ++ rest) = .ok (encodeDatum comparable d, rest) := by
  simp only [cutOne, peek_encodeDatum comparable hd rest, bind, Except.bind, pure, Except.pure]
  rw [if_neg (by simp), Int.toNat_natCast, List.take_left, List.drop_left]


/-! ### Reading back a row -/

section Row

variable (comparable : Bool)

theorem encode_cons (d : Datum) (ds : List Datum) :
    encode (d :: ds) comparable = encodeDatum comparable d ++ encode ds comparable := by
  simp [encode]

theorem length_le_length_encode (vals : List Datum) : vals.length ≤ (encode vals comparable).length := by
  induction vals with
  | nil => simp
  | cons d ds ih =>
    have hd := List.length_pos_iff.mpr (encodeDatum_ne_nil comparable d)
    rw [encode_cons, List.length_append, List.length_cons]
    omega

/-- Each round of the loop of `Decode` reads one datum, so the loop reads back the whole row. -/
theorem decodeLoop_encode {vals : List Datum} (hvals : ∀ d ∈ vals, roundTrips d) {fuel : Nat}
    (hfuel : vals.length ≤ fuel) :
    decodeLoop fuel (encode vals comparable) = .ok (vals.map decodedDatum) := by
  induction vals generalizing fuel with
  | nil => cases fuel <;> rfl
  | cons d ds ih =>
    obtain ⟨fuel, rfl⟩ : ∃ f, fuel = f + 1 := ⟨fuel - 1, by simp at hfuel; omega⟩
    have hd : roundTrips d := hvals d List.mem_cons_self
    have hds : ∀ d ∈ ds, roundTrips d := fun d' h => hvals d' (List.mem_cons_of_mem d h)
    have hlen : (encodeDatum comparable d ++ encode ds comparable).length > 0 := by
      rw [List.length_append]
      have := List.length_pos_iff.mpr (encodeDatum_ne_nil comparable d)
      omega
    rw [encode_cons, decodeLoop, if_pos hlen]
    simp only [decodeOne_encodeDatum comparable hd, bind, Except.bind,
      ih hds (by simpa using hfuel), List.map_cons, pure, Except.pure]

theorem cutLoop_encode {vals : List Datum} (hvals : ∀ d ∈ vals, roundTrips d)
    (rest : List (Fin 256)) :
    cutLoop vals.length (encode vals comparable ++ rest) =
      .ok (vals.map (encodeDatum comparable), rest) := by
  induction vals with
  | nil => rfl
  | cons d ds ih =>
    have hd : roundTrips d := hvals d List.mem_cons_self
    have hds : ∀ d ∈ ds, roundTrips d := fun d' h => hvals d' (List.mem_cons_of_mem d h)
    rw [encode_cons, List.append_assoc, List.length_cons, cutLoop]
    simp only [cutOne_encodeDatum comparable hd, bind, Except.bind, ih hds, List.map_cons, pure,
      Except.pure]

theorem decode_encode {vals : List Datum} (hne : vals ≠ []) (hvals : ∀ d ∈ vals, roundTrips d) :
    decode (encode vals comparable) = .ok (vals.map decodedDatum) ∧
      cutLoop vals.length (encode vals comparable) = .ok (vals.map (encodeDatum comparable), []) ∧
      ∀ d ∈ vals, decodeOne (encodeDatum comparable d) = .ok ([], decodedDatum d) := by
  refine ⟨?decode, ?cut, ?one⟩
  case decode =>
    have hlen := length_le_length_encode comparable vals
    have hpos := List.length_pos_iff.mpr hne
    rw [decode, if_neg (by omega)]
    exact decodeLoop_encode comparable hvals hlen
  case cut => simpa using cutLoop_encode comparable hvals []
  case one =>
    intro d hd
    simpa using decodeOne_encodeDatum comparable (hvals d hd) []

end Row

theorem decode_encode_negZero :
    (∀ d ∈ [Datum.int64 (-1), .float64 0x8000000000000000, .bytes [1, 2], .null], roundTrips d) ∧
      decode (encode [.int64 (-1), .float64 0x8000000000000000, .bytes [1, 2], .null] false) =
        .ok [.int64 (-1), .float64 0, .bytes [1, 2], .null] :=
  ⟨by decide, (decode_encode false (List.cons_ne_nil _ _) (by decide)).1⟩

/-- `math.NaN()` has its sign bit clear, is inverted by `EncodeFloat` as if it were negative, and is
read back by `DecodeFloat` as a positive subnormal. -/
theorem decode_encodeKey_nan :
    decode (encodeKey [.float64 0x7FF8000000000001]) = .ok [.float64 0x0007FFFFFFFFFFFE] ∧
      compareDatum (.float64 0x7FF8000000000001) (.float64 0x0007FFFFFFFFFFFE) ≠ .eq := by
  decide

end TinySql.Codec
