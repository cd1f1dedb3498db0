import Mathlib

/-!
# Fixed-size binary records

A file of records is the concatenation of their encodings, and a reader takes
records from it as long as a whole one is left.  A codec says how one record is
laid out; codecs are put together from little-endian words and raw bytes.  What
is proved for all of them is that reading inverts writing, that whatever is read
was written, and that a file cut off anywhere yields a prefix of its records.
-/

namespace TbjitAlloc.Records

abbrev Bytes := List UInt8

/-- The low `width` bytes of a value, least significant first. -/
def encodeWord : ℕ → ℕ → Bytes
  | 0, _ => []
  | width + 1, value =>
      UInt8.ofNat (value % 256) :: encodeWord width (value / 256)

def decodeWord : Bytes → ℕ
  | [] => 0
  | byte :: rest => byte.toNat + 256 * decodeWord rest

theorem length_encodeWord (width value : ℕ) :
    (encodeWord width value).length = width := by
  induction width generalizing value with
  | zero => rfl
  | succ width ih => rw [encodeWord, List.length_cons, ih]

theorem decodeWord_lt (bytes : Bytes) :
    decodeWord bytes < 256 ^ bytes.length := by
  induction bytes with
  | nil => exact Nat.one_pos
  | cons byte rest ih =>
      have hbyte := byte.toNat_lt
      rw [decodeWord, List.length_cons, pow_succ]
      omega

theorem decodeWord_encodeWord {width value : ℕ} (hvalue : value < 256 ^ width) :
    decodeWord (encodeWord width value) = value := by
  induction width generalizing value with
  | zero => exact (Nat.lt_one_iff.mp hvalue).symm
  | succ width ih =>
      have hrest : value / 256 < 256 ^ width :=
        Nat.div_lt_of_lt_mul (by rwa [pow_succ, mul_comm] at hvalue)
      have hlow : (UInt8.ofNat (value % 256)).toNat = value % 256 :=
        UInt8.toNat_ofNat_of_lt' (Nat.mod_lt _ (by decide))
      rw [encodeWord, decodeWord, ih hrest, hlow]
      exact Nat.mod_add_div value 256

theorem encodeWord_decodeWord (bytes : Bytes) :
    encodeWord bytes.length (decodeWord bytes) = bytes := by
  induction bytes with
  | nil => rfl
  | cons byte rest ih =>
      have hbyte : byte.toNat < 256 := byte.toNat_lt
      have hlow : (byte.toNat + 256 * decodeWord rest) % 256 = byte.toNat := by
        omega
      have hhigh : (byte.toNat + 256 * decodeWord rest) / 256 =
          decodeWord rest := by omega
      rw [List.length_cons, decodeWord, encodeWord, hlow, hhigh, ih,
        UInt8.ofNat_toNat]

/-! ## Codecs -/

/-- A layout of `size` bytes.  Valid records and byte strings of that size are in
bijection. -/
structure Codec (Record : Type*) where
  size : ℕ
  size_pos : 0 < size
  Valid : Record → Prop
  encode : Record → Bytes
  decode : Bytes → Record
  length_encode : ∀ record, Valid record → (encode record).length = size
  decode_encode : ∀ record, Valid record → decode (encode record) = record
  encode_decode : ∀ bytes, bytes.length = size →
    Valid (decode bytes) ∧ encode (decode bytes) = bytes

namespace Codec

variable {Record Left Right : Type*}

/-- A little-endian word. -/
def word (width : ℕ) (hwidth : 0 < width) : Codec ℕ where
  size := width
  size_pos := hwidth
  Valid := fun value => value < 256 ^ width
  encode := encodeWord width
  decode := decodeWord
  length_encode := fun value _ => length_encodeWord width value
  decode_encode := fun _ hvalue => decodeWord_encodeWord hvalue
  encode_decode := fun bytes hlength => by
    subst hlength
    exact ⟨decodeWord_lt bytes, encodeWord_decodeWord bytes⟩

/-- Bytes nothing is known of, such as the padding of a structure. -/
def raw (width : ℕ) (hwidth : 0 < width) : Codec Bytes where
  size := width
  size_pos := hwidth
  Valid := fun bytes => bytes.length = width
  encode := id
  decode := id
  length_encode := fun _ hvalid => hvalid
  decode_encode := fun _ _ => rfl
  encode_decode := fun _ hlength => ⟨hlength, rfl⟩

/-- One layout after the other. -/
def pair (left : Codec Left) (right : Codec Right) : Codec (Left × Right) where
  size := left.size + right.size
  size_pos := Nat.add_pos_left left.size_pos _
  Valid := fun record => left.Valid record.1 ∧ right.Valid record.2
  encode := fun record => left.encode record.1 ++ right.encode record.2
  decode := fun bytes =>
    (left.decode (bytes.take left.size), right.decode (bytes.drop left.size))
  length_encode := fun record hvalid => by
    rw [List.length_append, left.length_encode _ hvalid.1,
      right.length_encode _ hvalid.2]
  decode_encode := fun record hvalid => by
    rw [List.take_left' (left.length_encode _ hvalid.1),
      List.drop_left' (left.length_encode _ hvalid.1),
      left.decode_encode _ hvalid.1, right.decode_encode _ hvalid.2]
  encode_decode := fun bytes hlength => by
    obtain ⟨hleft, hfirst⟩ := left.encode_decode (bytes.take left.size)
      (by rw [List.length_take, hlength]; omega)
    obtain ⟨hright, hsecond⟩ := right.encode_decode (bytes.drop left.size)
      (by rw [List.length_drop, hlength]; omega)
    refine ⟨⟨hleft, hright⟩, ?_⟩
    dsimp only
    rw [hfirst, hsecond, List.take_append_drop]

/-- The same layout for another view of the records. -/
def map (codec : Codec Left) (view : Left ≃ Right) : Codec Right where
  size := codec.size
  size_pos := codec.size_pos
  Valid := fun record => codec.Valid (view.symm record)
  encode := fun record => codec.encode (view.symm record)
  decode := fun bytes => view (codec.decode bytes)
  length_encode := fun record hvalid => codec.length_encode _ hvalid
  decode_encode := fun record hvalid => by
    rw [codec.decode_encode _ hvalid, Equiv.apply_symm_apply]
  encode_decode := fun bytes hlength => by
    rw [Equiv.symm_apply_apply]
    exact codec.encode_decode bytes hlength

/-! ## Files -/

section Files

variable (codec : Codec Record)

def encodeAll (records : List Record) : Bytes :=
  records.flatMap codec.encode

/-- Take records while a whole one is left.  Each takes at least one byte, so the
length of the input bounds their number. -/
def readLoop : ℕ → Bytes → List Record
  | 0, _ => []
  | fuel + 1, bytes =>
      if codec.size ≤ bytes.length then
        codec.decode (bytes.take codec.size) ::
          readLoop fuel (bytes.drop codec.size)
      else []

def readAll (bytes : Bytes) : List Record :=
  codec.readLoop bytes.length bytes

variable {codec}
variable {records : List Record} {tail bytes : Bytes}

/-- Enough fuel is enough. -/
theorem readLoop_eq {fuel : ℕ} (hfuel : bytes.length ≤ fuel) :
    codec.readLoop fuel bytes = codec.readAll bytes := by
  have hpos := codec.size_pos
  suffices hany : ∀ left right (bytes : Bytes), bytes.length ≤ left →
      bytes.length ≤ right →
      codec.readLoop left bytes = codec.readLoop right bytes from
    hany fuel bytes.length bytes hfuel le_rfl
  intro left
  induction left with
  | zero =>
      intro right bytes hleft _
      have hnone : ¬codec.size ≤ bytes.length := by omega
      cases right with
      | zero => rfl
      | succ right => rw [readLoop, readLoop, if_neg hnone]
  | succ left ih =>
      intro right bytes hleft hright
      cases right with
      | zero =>
          have hnone : ¬codec.size ≤ bytes.length := by omega
          rw [readLoop, readLoop, if_neg hnone]
      | succ right =>
          rw [readLoop, readLoop]
          by_cases hwhole : codec.size ≤ bytes.length
          · rw [if_pos hwhole, if_pos hwhole]
            have hrest : (bytes.drop codec.size).length =
                bytes.length - codec.size := List.length_drop
            rw [ih right _ (by omega) (by omega)]
          · rw [if_neg hwhole, if_neg hwhole]

theorem readAll_of_short (hshort : bytes.length < codec.size) :
    codec.readAll bytes = [] := by
  rw [readAll]
  cases bytes.length with
  | zero => rfl
  | succ length => rw [readLoop, if_neg (not_le.mpr hshort)]

/-- The first record is read and the rest of the file is read on. -/
theorem readAll_of_le (hwhole : codec.size ≤ bytes.length) :
    codec.readAll bytes = codec.decode (bytes.take codec.size) ::
      codec.readAll (bytes.drop codec.size) := by
  have hpos := codec.size_pos
  obtain ⟨length, hlength⟩ : ∃ length, bytes.length = length + 1 :=
    Nat.exists_eq_succ_of_ne_zero (by omega)
  rw [readAll, hlength, readLoop, if_pos hwhole]
  refine congrArg _ (readLoop_eq ?_)
  rw [List.length_drop]
  omega

/-- Reading inverts writing, and ignores a record that was cut off. -/
theorem readAll_encodeAll (hvalid : ∀ record ∈ records, codec.Valid record)
    (htail : tail.length < codec.size) :
    codec.readAll (codec.encodeAll records ++ tail) = records := by
  induction records with
  | nil => exact readAll_of_short htail
  | cons record records ih =>
      have hlength := codec.length_encode record
        (hvalid record List.mem_cons_self)
      have hsplit : codec.encodeAll (record :: records) ++ tail =
          codec.encode record ++ (codec.encodeAll records ++ tail) :=
        List.append_assoc ..
      rw [hsplit, readAll_of_le (by rw [List.length_append]; omega),
        List.take_left' hlength, List.drop_left' hlength,
        codec.decode_encode record (hvalid record List.mem_cons_self),
        ih fun other hother => hvalid other (List.mem_cons_of_mem _ hother)]

/-- Whatever is read was written: the file is the encoding of the records read,
and less than a record more. -/
theorem encodeAll_readAll (codec : Codec Record) (bytes : Bytes) :
    ∃ tail : Bytes, tail.length < codec.size ∧
      (∀ record ∈ codec.readAll bytes, codec.Valid record) ∧
      bytes = codec.encodeAll (codec.readAll bytes) ++ tail := by
  have hpos := codec.size_pos
  induction hlength : bytes.length using Nat.strong_induction_on
    generalizing bytes with
  | _ length ih =>
      by_cases hwhole : codec.size ≤ bytes.length
      · have hdrop : (bytes.drop codec.size).length =
            bytes.length - codec.size := List.length_drop
        obtain ⟨tail, htail, hvalid, hbytes⟩ :=
          ih _ (by omega) (bytes.drop codec.size) rfl
        obtain ⟨hfirst, hencode⟩ := codec.encode_decode (bytes.take codec.size)
          (by rw [List.length_take]; omega)
        refine ⟨tail, htail, ?_, ?_⟩
        · rw [readAll_of_le hwhole]
          exact List.forall_mem_cons.mpr ⟨hfirst, hvalid⟩
        · rw [readAll_of_le hwhole, encodeAll, List.flatMap_cons, hencode,
            List.append_assoc, ← encodeAll, ← hbytes, List.take_append_drop]
      · have hnone := readAll_of_short (not_le.mp hwhole)
        exact ⟨bytes, not_le.mp hwhole, by simp [hnone],
          by rw [hnone]; rfl⟩

theorem readAll_eq_iff :
    codec.readAll bytes = records ↔
      (∀ record ∈ records, codec.Valid record) ∧
      ∃ tail : Bytes, tail.length < codec.size ∧
        bytes = codec.encodeAll records ++ tail := by
  constructor
  · rintro rfl
    obtain ⟨tail, htail, hvalid, hbytes⟩ := encodeAll_readAll codec bytes
    exact ⟨hvalid, tail, htail, hbytes⟩
  · rintro ⟨hvalid, tail, htail, rfl⟩
    exact readAll_encodeAll hvalid htail

/-- A file that is cut off yields its first records. -/
theorem readAll_take (codec : Codec Record) (bytes : Bytes) (count : ℕ) :
    codec.readAll (bytes.take count) =
      (codec.readAll bytes).take (count / codec.size) := by
  have hpos := codec.size_pos
  induction count using Nat.strong_induction_on generalizing bytes with
  | _ count ih =>
      by_cases hcount : count < codec.size
      · rw [Nat.div_eq_of_lt hcount, List.take_zero]
        refine readAll_of_short ?_
        rw [List.length_take]
        omega
      · by_cases hwhole : codec.size ≤ bytes.length
        · have hdiv : count / codec.size =
              (count - codec.size) / codec.size + 1 :=
            Nat.div_eq_sub_div hpos (not_lt.mp hcount)
          rw [readAll_of_le (by rw [List.length_take]; omega), hdiv,
            readAll_of_le hwhole, List.take_succ_cons, List.take_take,
            Nat.min_eq_left (not_lt.mp hcount), List.drop_take,
            ih (count - codec.size) (by omega)]
        · rw [List.take_of_length_le (by omega),
            readAll_of_short (not_le.mp hwhole), List.take_nil]

end Files

end Codec

end TbjitAlloc.Records
