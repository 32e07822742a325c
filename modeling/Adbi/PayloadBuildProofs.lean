import Adbi.PayloadBuild
import Adbi.ClientProofs
import Adbi.Lib.Runs
import Mathlib.Algebra.Order.Ring.Nat

/-! The buffer of a payload grows by doubling from 64 bytes, in a `size_t` of 32
bits. Up to 2^31 bytes it holds what was put into it, and every accessor finds its
own value there; a longer payload is never finished. -/
namespace Adbi.PayloadBuildProofs
open Adbi.Lib Adbi.Lib.Traced Adbi.Payload Adbi.PayloadProofs Adbi.PayloadPutProofs Adbi.PayloadBuild

variable {fuel : Nat} {need allocate allocated count : Word} {pb after : PayloadBuffer}
  {data : Bytes} {memory : Memory}

/-! ## Growth -/

/-- The sizes that the buffer can have. -/
def Doubled (allocate : Word) : Prop := ∃ k ≤ 25, allocate.toNat = 64 * 2 ^ k

private theorem doubled_le (doubled : Doubled allocate) : allocate.toNat ≤ 2 ^ 31 := by
  obtain ⟨k, bound, eq⟩ := doubled
  have power : 2 ^ k ≤ 2 ^ 25 := Nat.pow_le_pow_right (by omega) bound
  omega

/-- Behind 2^31 the size is zero, and stays it. -/
private theorem grow_zero (needed : 0 < need.toNat) : grow fuel need 0#32 = none := by
  induction fuel with
  | zero => rfl
  | succ fuel ih =>
    rw [grow, if_pos (by rw [BitVec.lt_def]; exact needed)]
    exact ih

private theorem twice {k : Nat} (eq : allocate.toNat = 64 * 2 ^ k) (bound : k ≤ 24) :
    (allocate * 2#32).toNat = 64 * 2 ^ (k + 1) := by
  have power : 2 ^ k ≤ 2 ^ 24 := Nat.pow_le_pow_right (by omega) bound
  rw [BitVec.toNat_mul, eq, show (2#32).toNat = 2 from rfl, Nat.mod_eq_of_lt (by omega),
    Nat.mul_assoc, ← Nat.pow_succ]

private theorem twice_last (eq : allocate.toNat = 64 * 2 ^ 25) : allocate * 2#32 = 0#32 := by
  apply BitVec.eq_of_toNat_eq
  rw [BitVec.toNat_mul, eq]
  rfl

/-- What the loop ends with. -/
theorem grow_some (doubled : Doubled allocate) (grown : grow fuel need allocate = some allocated) :
    Doubled allocated ∧ need.toNat ≤ allocated.toNat := by
  induction fuel generalizing allocate with
  | zero => cases grown
  | succ fuel ih =>
    rw [grow] at grown
    by_cases small : allocate < need
    · rw [if_pos small] at grown
      obtain ⟨k, bound, eq⟩ := doubled
      by_cases last : k = 25
      · rw [twice_last (last ▸ eq), grow_zero (by rw [BitVec.lt_def] at small; omega)] at grown
        cases grown
      · exact ih ⟨k + 1, by omega, twice eq (by omega)⟩ grown
    · rw [if_neg small] at grown
      cases grown
      exact ⟨doubled, by rwa [BitVec.lt_def, Nat.not_lt] at small⟩

/-- The loop ends, if the bytes fit into the largest size. -/
theorem grow_of_le (need : Word) (k : Nat) (bound : k ≤ 25) (eq : allocate.toNat = 64 * 2 ^ k)
    (fits : need.toNat ≤ 2 ^ 31) (enough : 25 - k < fuel) :
    ∃ allocated, grow fuel need allocate = some allocated := by
  induction fuel generalizing allocate k with
  | zero => omega
  | succ fuel ih =>
    rw [grow]
    by_cases small : allocate < need
    · rw [if_pos small]
      rw [BitVec.lt_def, eq] at small
      have early : k ≤ 24 := by
        by_contra last
        have power : 2 ^ 25 ≤ 2 ^ k := Nat.pow_le_pow_right (by omega) (by omega)
        omega
      exact ih (k + 1) (by omega) (twice eq early) (by omega)
    · exact ⟨allocate, if_neg small⟩

/-! ## Appending -/

/-- The bytes that are appended. -/
theorem append_ok (doubled : Doubled pb.allocated)
    (appended : payloadAppendBytes fuel pb data count = .ok after) :
    Doubled after.allocated ∧ after.buf = pb.buf ++ data.take count.toNat := by
  unfold payloadAppendBytes at appended
  cases grown : grow fuel (count + pb.size) pb.allocated with
  | none => simp only [grown, reduceCtorEq] at appended
  | some allocate =>
    simp only [grown] at appended
    split at appended
    · cases appended
      exact ⟨(grow_some doubled grown).1, rfl⟩
    · cases appended

/-- Bytes that fit into the largest size are appended. -/
theorem append_of_le (data : Bytes) (count : Word) (doubled : Doubled pb.allocated)
    (whole : count.toNat ≤ data.length)
    (fits : pb.buf.length + count.toNat ≤ 2 ^ 31) (enough : 26 ≤ fuel) :
    ∃ after, payloadAppendBytes fuel pb data count = .ok after ∧
      Doubled after.allocated ∧ after.buf.length = pb.buf.length + count.toNat := by
  have need : (count + pb.size).toNat = pb.buf.length + count.toNat := by
    rw [BitVec.toNat_add, PayloadBuffer.size, BitVec.toNat_ofNat]
    omega
  obtain ⟨k, bound, eq⟩ := doubled
  obtain ⟨allocate, grown⟩ := grow_of_le (count + pb.size) k bound eq (by omega)
    (Nat.lt_of_le_of_lt (Nat.sub_le _ _) enough)
  obtain ⟨larger, room⟩ := grow_some ⟨k, bound, eq⟩ grown
  have length : (pb.buf ++ data.take count.toNat).length = pb.buf.length + count.toNat := by
    rw [List.length_append, List.length_take, Nat.min_eq_left whole]
  have within : (pb.buf ++ data.take count.toNat).length ≤ allocate.toNat := by
    rw [length]
    omega
  exact ⟨⟨allocate, pb.buf ++ data.take count.toNat, within⟩,
    by simp only [payloadAppendBytes, grown, dif_pos within], larger, length⟩

/-! ## Elements -/

/-- The element that a field is stored as. -/
def element (field : Field) : Payload.Element :=
  match field.value with
  | .u32 value => Payload.payloadPutU32 field.name value
  | .i32 value => Payload.payloadPutI32 field.name value
  | .u64 value => Payload.payloadPutU64 field.name value
  | .i64 value => Payload.payloadPutI64 field.name value
  | .str text => Payload.payloadPutStr field.name (some text.chars)

/-- `payload_add_element` with the size of its data. -/
def add (fuel : Nat) (pb : PayloadBuffer) (e : Payload.Element) : Except Fault PayloadBuffer :=
  PayloadBuild.payloadAddElement fuel pb e.type e.name e.data (BitVec.ofNat 32 e.data.length)

theorem put_eq (field : Field) : payloadPut fuel pb field = add fuel pb (element field) := by
  unfold payloadPut element
  cases field.value with
  | str text =>
    simp only [add, PayloadBuild.payloadPutStr, Payload.payloadPutStr, Option.getD_some,
      List.length_append, List.length_singleton,
      BitVec.ofNat_add]
  | u32 value => rfl
  | i32 value => rfl
  | u64 value => rfl
  | i64 value => rfl

@[simp] theorem element_name (field : Field) : (element field).name = field.name := by
  unfold element
  cases field.value <;> rfl

@[simp] theorem element_type (field : Field) : (element field).type = field.value.type := by
  unfold element
  cases field.value <;> rfl

theorem element_storable (field : Field) : Storable (element field) := by
  have short := field.short
  have text (chars : Text) := chars.fits
  constructor
  · rw [element_name]
    exact field.plain
  · rw [element_name]
    omega
  · unfold element
    cases field.value with
    | str chars => simpa [Payload.payloadPutStr] using chars.fits
    | u32 value => simp [Payload.payloadPutU32]
    | i32 value => simp [Payload.payloadPutI32]
    | u64 value => simp [Payload.payloadPutU64]
    | i64 value => simp [Payload.payloadPutI64]
  · unfold element
    cases field.value with
    | str chars => exact ⟨chars.chars, rfl⟩
    | u32 value => exact length_littleEndian value
    | i32 value => exact length_littleEndian value
    | u64 value => exact length_littleEndian value
    | i64 value => exact length_littleEndian value

/-- An element is appended as a whole. -/
theorem add_ok {e : Payload.Element} (doubled : Doubled pb.allocated)
    (added : add fuel pb e = .ok after) :
    Doubled after.allocated ∧ after.buf = pb.buf ++ Payload.payloadAddElement e := by
  obtain ⟨first, info, rest⟩ := bind_ok added
  obtain ⟨second, name, data⟩ := bind_ok rest
  obtain ⟨firstDoubled, firstBuf⟩ := append_ok doubled info
  obtain ⟨secondDoubled, secondBuf⟩ := append_ok firstDoubled name
  obtain ⟨lastDoubled, lastBuf⟩ := append_ok secondDoubled data
  refine ⟨lastDoubled, ?_⟩
  have size : (BitVec.setWidth 32 (BitVec.ofNat 16 (e.name.length + 1))).toNat =
      (BitVec.ofNat 16 (e.name.length + 1)).toNat :=
    BitVec.toNat_setWidth_of_le (by decide)
  have header : ([e.type.code, 0#8] ++ littleEndian (BitVec.ofNat 16 (e.name.length + 1)) ++
      littleEndian (BitVec.ofNat 32 e.data.length)).take headerSize.toNat = [e.type.code, 0#8] ++
        littleEndian (BitVec.ofNat 16 (e.name.length + 1)) ++
          littleEndian (BitVec.ofNat 32 e.data.length) :=
    List.take_of_length_le (by simp [headerSize])
  rw [lastBuf, secondBuf, firstBuf, header, size, Payload.payloadAddElement]
  simp only [List.append_assoc]

/-- An element that fits into the largest size is appended. -/
theorem add_of_le {e : Payload.Element} (storable : Storable e) (doubled : Doubled pb.allocated)
    (fits : pb.buf.length + elementLength e ≤ 2 ^ 31) (enough : 26 ≤ fuel) :
    ∃ after, add fuel pb e = .ok after := by
  have narrow := storable.nameFits
  rw [elementLength] at fits
  have size : (BitVec.setWidth 32 (BitVec.ofNat 16 (e.name.length + 1))).toNat = e.name.length + 1 := by
    rw [BitVec.toNat_setWidth_of_le (by decide), BitVec.toNat_ofNat, Nat.mod_eq_of_lt narrow]
  have count : (BitVec.ofNat 32 e.data.length).toNat = e.data.length := by
    rw [BitVec.toNat_ofNat, Nat.mod_eq_of_lt storable.dataFits]
  obtain ⟨first, info, firstDoubled, firstLength⟩ := append_of_le ([e.type.code, 0#8] ++
    littleEndian (BitVec.ofNat 16 (e.name.length + 1)) ++
      littleEndian (BitVec.ofNat 32 e.data.length)) headerSize doubled
    (by simp [headerSize]) (by simp only [headerSize, BitVec.toNat_ofNat]; omega) enough
  simp only [headerSize, BitVec.toNat_ofNat] at firstLength
  obtain ⟨second, name, secondDoubled, secondLength⟩ := append_of_le (e.name ++ [0#8])
    (BitVec.setWidth 32 (BitVec.ofNat 16 (e.name.length + 1))) firstDoubled
      (by simp only [size, List.length_append, List.length_singleton, Nat.le_refl])
    (by omega) enough
  obtain ⟨last, data, -, -⟩ := append_of_le e.data (BitVec.ofNat 32 e.data.length) secondDoubled
    (Nat.le_of_eq count) (by omega) enough
  refine ⟨last, ?_⟩
  unfold add PayloadBuild.payloadAddElement
  simp only [info, name, data, Bind.bind, Except.bind]

/-! ## A whole payload -/

/-- The bytes of a field. -/
def fieldSize (field : Field) : Nat := elementLength (element field)

/-- The bytes of the fields and of the terminator. -/
def total (fields : List Field) : Nat := (fields.map fieldSize).sum + 9

theorem length_payload (fields : List Field) :
    (payloadBytes (fields.map element ++ [Payload.payloadPutTerm])).length = total fields := by
  induction fields with
  | nil => rfl
  | cons field later ih =>
    rw [List.map_cons, List.cons_append, payloadBytes_cons, List.length_append, ih,
      length_add_element (element_storable field), total,
      total, List.map_cons, List.sum_cons, fieldSize, Nat.add_assoc]

/-- What the buffer holds of a payload that is finished. -/
theorem build_ok {fields : List Field} (built : build fuel fields = .ok pb) :
    pb.buf = payloadBytes (fields.map element ++ [Payload.payloadPutTerm]) ∧ total fields ≤ 2 ^ 31 := by
  have put {start filled : PayloadBuffer} (doubled : Doubled start.allocated)
      (loop : fields.foldlM (payloadPut fuel) start = .ok filled) :
      Doubled filled.allocated ∧ filled.buf = start.buf ++ payloadBytes (fields.map element) := by
    clear built
    induction fields generalizing start with
    | nil =>
      cases loop
      exact ⟨doubled, by simp [payloadBytes]⟩
    | cons field later ih =>
      rw [List.foldlM_cons, put_eq] at loop
      obtain ⟨middle, first, rest⟩ := bind_ok loop
      obtain ⟨middleDoubled, middleBuf⟩ := add_ok doubled first
      obtain ⟨finalDoubled, finalBuf⟩ := ih middleDoubled rest
      exact ⟨finalDoubled, by rw [finalBuf, middleBuf, List.map_cons, payloadBytes_cons, List.append_assoc]⟩
  obtain ⟨filled, loop, term⟩ := bind_ok built
  obtain ⟨doubled, buf⟩ := put ⟨0, by omega, rfl⟩ loop
  obtain ⟨lastDoubled, lastBuf⟩ := add_ok (e := Payload.payloadPutTerm) doubled term
  have whole : pb.buf = payloadBytes (fields.map element ++ [Payload.payloadPutTerm]) := by
    rw [lastBuf, buf]
    simp [payloadBytes, payloadCreate]
  refine ⟨whole, ?_⟩
  rw [← length_payload, ← whole]
  exact Nat.le_trans pb.within (doubled_le lastDoubled)

/-- A payload that fits into the largest size is finished. -/
theorem build_of_le {fields : List Field} (fits : total fields ≤ 2 ^ 31) (enough : 26 ≤ fuel) :
    ∃ pb, build fuel fields = .ok pb := by
  have put (start : PayloadBuffer) (doubled : Doubled start.allocated)
      (room : start.buf.length + total fields ≤ 2 ^ 31) :
      ∃ filled, fields.foldlM (payloadPut fuel) start = .ok filled ∧ Doubled filled.allocated ∧
      filled.buf.length + 9 ≤ 2 ^ 31 := by
    clear fits
    induction fields generalizing start with
    | nil => exact ⟨start, rfl, doubled, room⟩
    | cons field later ih =>
      have split : total (field :: later) = elementLength (element field) + total later := by
        rw [total, total, List.map_cons, List.sum_cons, fieldSize, Nat.add_assoc]
      have storable := element_storable field
      obtain ⟨middle, first⟩ := add_of_le storable doubled (by omega) enough
      obtain ⟨middleDoubled, middleBuf⟩ := add_ok doubled first
      have length : middle.buf.length = start.buf.length + elementLength (element field) := by
        rw [middleBuf, List.length_append, length_add_element storable]
      obtain ⟨filled, loop, final⟩ := ih middle middleDoubled (by omega)
      refine ⟨filled, ?_, final⟩
      rw [List.foldlM_cons, put_eq, first]
      exact loop
  obtain ⟨filled, loop, doubled, room⟩ :=
    put payloadCreate ⟨0, by omega, rfl⟩ (by simpa [payloadCreate] using fits)
  obtain ⟨last, term⟩ := add_of_le term_storable doubled room enough
  refine ⟨last, ?_⟩
  unfold build
  rw [loop]
  exact term

/-! ## Reading back -/

/-- What an accessor points to is the value. -/
def Value.At (memory : Memory) (place : Word) : Value → Prop
  | .u32 value => (loadU32 memory place).value = value
  | .i32 value => (loadU32 memory place).value = value
  | .u64 value => (loadU32 memory (place + 4#32)).value ++ (loadU32 memory place).value = value
  | .i64 value => (loadU32 memory (place + 4#32)).value ++ (loadU32 memory place).value = value
  | .str text => Holds memory place (text.chars ++ [0#8])

theorem value_at {place : Word} (field : Field) (holds : Holds memory place (element field).data) :
    Value.At memory place field.value := by
  unfold element at holds
  unfold Value.At
  cases kind : field.value with
  | u32 value =>
    rw [kind] at holds
    exact ClientProofs.loadU32_of_holds holds
  | i32 value =>
    rw [kind] at holds
    exact ClientProofs.loadU32_of_holds holds
  | u64 value =>
    rw [kind] at holds
    exact ClientProofs.loadU64_of_holds holds
  | i64 value =>
    rw [kind] at holds
    exact ClientProofs.loadU64_of_holds holds
  | str text =>
    rw [kind] at holds
    exact holds

/-- No element of the name is found. -/
theorem find_missing {elements : List Payload.Element} {name : CString} {address : Word}
    (built : Built elements) (plain : 0#8 ∉ name)
    (holds : Holds memory address (payloadBytes (elements ++ [Payload.payloadPutTerm])))
    (absent : ∀ e ∈ elements, e.name ≠ name)
    (enough : elements.length < fuel) : (payloadFindLoop memory name fuel address).value =
      some none := by
  induction elements generalizing address fuel with
  | nil =>
    obtain ⟨fuel, rfl⟩ : ∃ k, fuel = k + 1 := ⟨fuel - 1, by simp at enough; omega⟩
    rw [List.nil_append, payloadBytes_cons] at holds
    have stored := stored_of_holds term_storable (holds_append.mp holds).1
    have ends : typeOf memory address = PayloadType.terminator.code := stored.type
    simp [payloadFindLoop, ends]
  | cons e later ih =>
    obtain ⟨fuel, rfl⟩ : ∃ k, fuel = k + 1 := ⟨fuel - 1, by simp at enough; omega⟩
    have storable := built.storable e List.mem_cons_self
    rw [List.cons_append, payloadBytes_cons] at holds
    obtain ⟨here, rest⟩ := holds_append.mp holds
    have stored := stored_of_holds storable here
    have goes : typeOf memory address ≠ PayloadType.terminator.code := by
      rw [stored.type]
      exact code_ne_terminator (built.plain e List.mem_cons_self)
    have other : ¬(strcmp memory name (address + headerSize)).value = true := by
      rw [strcmp_iff plain storable.name stored.name]
      exact fun same => absent e List.mem_cons_self same.symm
    rw [length_add_element storable, ← size_of_stored storable stored] at rest
    have searched := ih ⟨fun e member => built.storable e (List.mem_cons_of_mem _ member),
      fun e member => built.plain e (List.mem_cons_of_mem _ member)⟩ rest (fun e member =>
        absent e (List.mem_cons_of_mem _ member))
      (by simp at enough; omega)
    simpa [payloadFindLoop, goes, payloadElementGetName, other] using searched

/-- The payload at the start of a memory, as the check and the accessors see it. -/
structure ReadBack (fields : List Field) (pb : PayloadBuffer) (memory : Memory) : Prop where
  accepted : ∃ fuel, (payloadCheck memory fuel pb.size).value = some true
  found : ∀ field ∈ fields, ∃ fuel place,
      (payloadGet field.value.type memory field.name fuel).value = some (some place) ∧
    Value.At memory place field.value
  missing : ∀ name type, 0#8 ∉ name → type ≠ .terminator →
      (∀ field ∈ fields, ¬(field.name = name ∧ field.value.type = type)) →
    ∃ fuel, (payloadGet type memory name fuel).value = some none

/-- The payload is finished and read back. -/
def RoundTrip (fields : List Field) : Prop :=
  ∃ fuel pb, build fuel fields = .ok pb ∧ ∀ memory, Holds memory 0 pb.buf → ReadBack fields pb memory

theorem fields_built (fields : List Field) : Built (fields.map element) := by
  constructor
  · intro e member
    obtain ⟨field, -, rfl⟩ := List.mem_map.mp member
    exact element_storable field
  · intro e member
    obtain ⟨field, -, rfl⟩ := List.mem_map.mp member
    rw [element_type]
    cases field.value <;> simp [Value.type]

private theorem code_injective {type other : PayloadType} (same : type.code = other.code) :
    type = other := by
  cases type <;> cases other <;> first | rfl | cases same

section Read
variable {fields : List Field} (holds : Holds memory 0
  (payloadBytes (fields.map element ++ [Payload.payloadPutTerm])))
include holds

/-- The first field of a name is the one that is found. -/
theorem search_field (distinct : (fields.map (·.name)).Nodup) {field : Field} (member : field ∈ fields) :
    ∃ fuel found, (payloadFind memory field.name fuel).value = some (some found) ∧
    Stored memory found (element field) := by
  obtain ⟨before, after, rfl⟩ := List.append_of_mem member
  have apart : ∀ e ∈ before.map element, e.name ≠ (element field).name := by
    intro e inside same
    obtain ⟨other, earlier, rfl⟩ := List.mem_map.mp inside
    rw [List.map_append, List.map_cons] at distinct
    have crossing := (List.nodup_append.mp distinct).2.2 other.name (List.mem_map_of_mem earlier)
      field.name List.mem_cons_self
    exact crossing (by simpa using same)
  have built := fields_built (before ++ field :: after)
  rw [List.map_append, List.map_cons] at built holds
  obtain ⟨found, result, stored⟩ := find_built built holds apart (Nat.lt_succ_self _)
  rw [element_name] at result
  exact ⟨_, found, result, stored⟩

private theorem get_field (distinct : (fields.map (·.name)).Nodup) {field : Field}
    (member : field ∈ fields) :
    ∃ fuel place, (payloadGet field.value.type memory field.name fuel).value = some (some place) ∧
    Value.At memory place field.value := by
  obtain ⟨fuel, found, result, stored⟩ := search_field holds distinct member
  have typed : (payloadFindTyped memory field.name field.value.type fuel).value = some (some found) :=
    find_typed_iff.mpr ⟨result, by rw [stored.type, element_type]⟩
  exact ⟨fuel, dataOf memory found, by simp [payloadGet, typed], value_at field stored.data⟩

private theorem get_missing (distinct : (fields.map (·.name)).Nodup) {name : CString}
    {type : PayloadType} (plain : 0#8 ∉ name)
    (absent : ∀ field ∈ fields, ¬(field.name = name ∧ field.value.type = type)) :
    ∃ fuel, (payloadGet type memory name fuel).value = some none := by
  by_cases named : ∃ field ∈ fields, field.name = name
  · obtain ⟨field, member, rfl⟩ := named
    obtain ⟨fuel, found, result, stored⟩ := search_field holds distinct member
    have other : typeOf memory found ≠ type.code := by
      rw [stored.type, element_type]
      exact fun same => absent field member ⟨rfl, code_injective same⟩
    exact ⟨fuel, by simp [payloadGet, payloadFindTyped, result, other]⟩
  · have others : ∀ e ∈ fields.map element, e.name ≠ name := by
      intro e inside same
      obtain ⟨field, member, rfl⟩ := List.mem_map.mp inside
      exact named ⟨field, member, by simpa using same⟩
    obtain ⟨fuel, searched⟩ : ∃ fuel, (payloadFind memory name fuel).value = some none :=
      ⟨_, find_missing (fields_built fields) plain holds others (Nat.lt_succ_self _)⟩
    exact ⟨fuel, by simp [payloadGet, payloadFindTyped, searched]⟩

end Read

/-- A finished payload is read back. -/
theorem read_back {fields : List Field} (distinct : (fields.map (·.name)).Nodup)
    (built : build fuel fields = .ok pb)
    (holds : Holds memory 0 pb.buf) : ReadBack fields pb memory := by
  obtain ⟨buf, fits⟩ := build_ok built
  have size : pb.size.toNat = (payloadBytes (fields.map element ++
      [Payload.payloadPutTerm])).length := by
    rw [PayloadBuffer.size, buf, length_payload, BitVec.toNat_ofNat]
    omega
  rw [buf] at holds
  have chain := chain_of_built (fields_built fields) holds size
  exact ⟨⟨pb.size.toNat + 1, check_ends chain (Nat.lt_succ_self _)⟩,
    fun field member => get_field holds distinct member,
    fun name type plain _ absent => get_missing holds distinct plain absent⟩

/-- A payload makes the round trip exactly when it has at most 2^31 bytes. -/
theorem round_trip_iff {fields : List Field} (distinct : (fields.map (·.name)).Nodup) :
    RoundTrip fields ↔ total fields ≤ 2 ^ 31 := by
  constructor
  · rintro ⟨fuel, pb, built, -⟩
    exact (build_ok built).2
  · intro fits
    obtain ⟨pb, built⟩ := build_of_le fits (Nat.le_refl 26)
    exact ⟨26, pb, built, fun memory holds => read_back distinct built holds⟩

/-- A payload with the number 42 under the name `a`. -/
theorem number_round_trip : RoundTrip [⟨[0x61#8], .u32 42#32, by decide, by decide⟩] :=
  (round_trip_iff (by simp)).mpr (by decide)

/-- A string of 2 GiB makes the buffer grow for ever. -/
theorem long_string_lost : ¬∀ fields : List Field, (fields.map (·.name)).Nodup → RoundTrip fields := by
  intro all
  obtain ⟨chars, length, plain⟩ : ∃ chars : CString, chars.length = 2 ^ 31 ∧ 0#8 ∉ chars :=
    ⟨List.replicate (2 ^ 31) 0x61#8, List.length_replicate,
      fun member => absurd (List.eq_of_mem_replicate member) (by decide)⟩
  obtain ⟨fuel, pb, built, -⟩ :=
    all [⟨[0x61#8], .str ⟨chars, plain, by omega⟩, by simp, by simp⟩] (by simp)
  have fits := (build_ok built).2
  simp [total, fieldSize, element, elementLength, Payload.payloadPutStr, length] at fits

end Adbi.PayloadBuildProofs
