import Adbi.Client
import Adbi.PayloadPutProofs

/-! The Python client and the server agree about payloads: what the client packs
the server accepts and reads back, and what the server builds the client
unpacks. The server's side of it needs names and strings within the limits that
`payload.h` sets, for the header has sixteen bits for the size of a name. -/
namespace Adbi.ClientProofs
open Adbi.Lib Adbi.Lib.Traced Adbi.Payload Adbi.PayloadProofs Adbi.PayloadPutProofs Adbi.Client

/-! ## What the client sends -/

/-- A field of the mapping that is packed. -/
structure Field (e : Client.Element) : Prop where
  name : 0#8 ∉ e.name
  plain : e.type ≠ .terminator
  text : ∀ s, e.value = .text s → 0#8 ∉ s

/-- The number or string behind a pointer that an accessor returned. -/
def Reads (memory : Memory) (place : Word) (type : PayloadType) (value : Value) : Prop :=
  match type, value with
  | .u32, .number n => ((loadU32 memory place).value.toNat : Int) = n
  | .i32, .number n => (loadU32 memory place).value.toInt = n
  | .u64, .number n =>
    (((loadU32 memory (place + 4#32)).value ++ (loadU32 memory place).value).toNat : Int) = n
  | .i64, .number n => ((loadU32 memory (place + 4#32)).value ++ (loadU32 memory place).value).toInt = n
  | .str, .text s => Holds memory place (s ++ [0#8])
  | _, _ => False

/-- An element of the client and one of the server for the same field. -/
structure Same (e : Client.Element) (element : Payload.Element) : Prop where
  type : element.type = e.type
  name : element.name = e.name
  data : e.binvalue = some element.data
  storable : Storable element

theorem tag_eq (type : PayloadType) : Element.tag type = type.code := by
  cases type <;> rfl

private theorem packSigned_some {width : Nat} {n : Int} {bytes : Bytes}
    (packed : packSigned width n = some bytes) :
    (-2 ^ (width - 1) ≤ n ∧ n < 2 ^ (width - 1)) ∧ bytes = littleEndian (BitVec.ofInt width n) := by
  unfold packSigned at packed
  split at packed
  · rename_i fits
    exact ⟨fits, (Option.some.inj packed).symm⟩
  · cases packed

private theorem typed_of_binvalue {e : Client.Element} {data : Bytes}
    (packed : e.binvalue = some data) : Typed e.type data := by
  unfold Client.Element.binvalue at packed
  cases kind : e.type <;> cases shape :
      e.value <;> rw [kind, shape] at packed <;> simp only [reduceCtorEq] at packed
  all_goals first
    | (cases packed; exact rfl)
    | (obtain ⟨-, rfl⟩ := packUnsigned_some packed; simp [Typed])
    | (obtain ⟨-, rfl⟩ := packSigned_some packed; simp [Typed])
    | (cases packed; exact ⟨_, rfl⟩)

/-- The client packs an element as the server would. -/
theorem pack_some {e : Client.Element} {bytes : Bytes} (plain : 0#8 ∉ e.name)
    (packed : e.pack = some bytes) :
    ∃ element, Same e element ∧ bytes = payloadAddElement element := by
  unfold Client.Element.pack at packed
  simp only [Option.bind_eq_bind, Option.bind_eq_some_iff] at packed
  obtain ⟨data, value, nameSize, named, dataSize, sized, eq⟩ := packed
  obtain ⟨nameFits, rfl⟩ := packUnsigned_some named
  obtain ⟨dataFits, rfl⟩ := packUnsigned_some sized
  have storable : Storable ⟨e.type, e.name, data⟩ :=
    ⟨plain, by simp; omega, by simp; omega, typed_of_binvalue value⟩
  refine ⟨⟨e.type, e.name, data⟩, ⟨rfl, rfl, value, storable⟩, ?_⟩
  rw [add_element_eq storable, ← Option.some.inj eq, tag_eq]
  have nameSize : BitVec.ofInt 16 ((e.name.length : Int) + 1) = BitVec.ofNat 16 (e.name.length + 1) := by
    exact_mod_cast BitVec.ofInt_natCast 16 (e.name.length + 1)
  rw [nameSize, BitVec.ofInt_natCast]

/-- Packing fails on nothing but a value out of range, a name or a string that is too long. -/
theorem pack_of_binvalue {e : Client.Element} {data : Bytes} (plain : 0#8 ∉ e.name)
    (nameFits : e.name.length + 1 < 2 ^ 16)
    (dataFits : data.length < 2 ^ 32) (value : e.binvalue = some data) :
    e.pack = some (payloadAddElement ⟨e.type, e.name, data⟩) := by
  have storable : Storable ⟨e.type, e.name, data⟩ :=
    ⟨plain, by simpa using nameFits, by simpa using dataFits, typed_of_binvalue value⟩
  have named : packUnsigned 16 ((e.name.length : Int) + 1) =
      some (littleEndian (BitVec.ofNat 16 (e.name.length + 1))) := by
    exact_mod_cast packUnsigned_of_lt nameFits
  unfold Client.Element.pack
  simp only [Option.bind_eq_bind, Option.bind_eq_some_iff]
  refine ⟨data, value, _, named, _, packUnsigned_of_lt dataFits, ?_⟩
  rw [add_element_eq storable, tag_eq]
  rfl

private theorem term_packed : Client.Element.terminator.pack = some (payloadAddElement payloadPutTerm) :=
  pack_of_binvalue (by simp [Client.Element.terminator]) (by decide) (by decide) rfl

/-- The client packs a payload as the server would. -/
theorem payloadPack_some {elements : List Client.Element} {payload : Bytes}
    (fields : ∀ e ∈ elements, Field e)
    (packed : payloadPack elements = some payload) :
    ∃ stored, List.Forall₂ Same elements stored ∧
    payload = payloadBytes (stored ++ [payloadPutTerm]) := by
  unfold payloadPack at packed
  induction elements generalizing payload with
  | nil =>
    refine ⟨[], .nil, ?_⟩
    simp only [List.nil_append, List.mapM_cons, term_packed] at packed
    cases packed
    rfl
  | cons e rest ih =>
    simp only [List.cons_append, List.mapM_cons, Option.bind_eq_bind, Option.map_eq_some_iff,
      Option.bind_eq_some_iff] at packed
    obtain ⟨_, ⟨bytes, first, blocks, later, eq⟩, rfl⟩ := packed
    cases eq
    obtain ⟨element, same, rfl⟩ := pack_some (fields e List.mem_cons_self).name first
    obtain ⟨stored, all, eq⟩ := ih (fun d member => fields d (List.mem_cons_of_mem _ member))
      (by rw [later]; rfl)
    exact ⟨element :: stored, .cons same all, by rw [List.cons_append, payloadBytes_cons, ← eq]; rfl⟩

/-! ## What the server reads -/

theorem loadU32_of_holds {memory : Memory} {place v : Word}
    (holds : Holds memory place (littleEndian v)) :
    (loadU32 memory place).value = v := by
  simp only [littleEndian_word, holds_cons, show (1 : Word) = 1#32 from rfl] at holds
  obtain ⟨b0, b1, b2, b3, -⟩ := holds
  show (memory (place + 2#32 + 1#32) ++ memory (place + 2#32)) ++
      (memory (place + 1#32) ++ memory place) = v
  rw [show place + 2#32 + 1#32 = place + 1#32 + 1#32 + 1#32 by bv_omega,
    show place + 2#32 = place + 1#32 + 1#32 by bv_omega,
    b0, b1, b2, b3]
  ext i h
  simp
  grind

private theorem littleEndian_long (v : BitVec 64) :
    littleEndian v = littleEndian (v.extractLsb' 0 32) ++ littleEndian (v.extractLsb' 32 32) := by
  show [v.extractLsb' 0 8, v.extractLsb' 8 8, v.extractLsb' 16 8, v.extractLsb' 24 8,
      v.extractLsb' 32 8, v.extractLsb' 40 8,
    v.extractLsb' 48 8, v.extractLsb' 56 8] = _
  simp only [littleEndian_word, List.cons_append, List.nil_append, List.cons.injEq, and_true]
  refine ⟨?_, ?_, ?_, ?_, ?_, ?_, ?_, ?_⟩
  all_goals
    ext i h
    simp
  all_goals grind

theorem loadU64_of_holds {memory : Memory} {place : Word} {v : BitVec 64}
    (holds : Holds memory place (littleEndian v)) :
    (loadU32 memory (place + 4#32)).value ++ (loadU32 memory place).value = v := by
  rw [littleEndian_long] at holds
  obtain ⟨low, high⟩ := holds_append.mp holds
  rw [length_littleEndian] at high
  rw [loadU32_of_holds low, loadU32_of_holds high]
  ext i h
  simp
  grind

/-- What an accessor points to is the value that was packed. -/
theorem reads_of_same {memory : Memory} {place : Word} {e : Client.Element}
    {element : Payload.Element} (field : Field e)
    (same : Same e element) (holds : Holds memory place element.data) :
    Reads memory place e.type e.value := by
  have packed := same.data
  have plain := field.plain
  unfold Client.Element.binvalue at packed
  cases kind : e.type <;> cases shape :
      e.value <;> rw [kind, shape] at packed <;> simp only [reduceCtorEq] at packed
  case terminator.number => exact absurd kind plain
  case terminator.text => exact absurd kind plain
  case u32.number n =>
    obtain ⟨range, eq⟩ := packUnsigned_some packed
    rw [eq] at holds
    show ((loadU32 memory place).value.toNat : Int) = n
    rw [loadU32_of_holds holds, BitVec.toNat_ofInt]
    omega
  case i32.number n =>
    obtain ⟨range, eq⟩ := packSigned_some packed
    rw [eq] at holds
    show (loadU32 memory place).value.toInt = n
    rw [loadU32_of_holds holds, BitVec.toInt_ofInt]
    exact Int.bmod_eq_of_le (by omega) (by omega)
  case u64.number n =>
    obtain ⟨range, eq⟩ := packUnsigned_some packed
    rw [eq] at holds
    show (((loadU32 memory (place + 4#32)).value ++ (loadU32 memory place).value).toNat : Int) = n
    rw [loadU64_of_holds holds, BitVec.toNat_ofInt]
    omega
  case i64.number n =>
    obtain ⟨range, eq⟩ := packSigned_some packed
    rw [eq] at holds
    show ((loadU32 memory (place + 4#32)).value ++ (loadU32 memory place).value).toInt = n
    rw [loadU64_of_holds holds, BitVec.toInt_ofInt]
    exact Int.bmod_eq_of_le (by omega) (by omega)
  case str.text text =>
    rw [← Option.some.inj packed] at holds
    exact holds

private theorem forall₂_split {R : α → β → Prop} {before after : List α} {a : α} {l : List β}
    (all : List.Forall₂ R (before ++ a :: after) l) :
    ∃ before' b after', l = before' ++ b :: after' ∧ List.Forall₂ R before before' ∧ R a b := by
  induction before generalizing l with
  | nil =>
    cases all with
    | cons here rest => exact ⟨[], _, _, rfl, .nil, here⟩
  | cons c rest ih =>
    cases all with
    | cons here later =>
      obtain ⟨before', b, after', rfl, all, related⟩ := ih later
      exact ⟨_ :: before', b, after', rfl, .cons here all, related⟩

theorem built_of_same {elements : List Client.Element} {stored : List Payload.Element}
    (fields : ∀ e ∈ elements, Field e) (all : List.Forall₂ Same elements stored) : Built stored := by
  induction all with
  | nil => exact ⟨by simp, by simp⟩
  | cons same _ ih =>
    have rest := ih fun e member => fields e (List.mem_cons_of_mem _ member)
    refine ⟨fun e member => ?_, fun e member => ?_⟩
    · rcases List.mem_cons.mp member with rfl | later
      · exact same.storable
      · exact rest.storable e later
    · rcases List.mem_cons.mp member with rfl | later
      · rw [same.type]
        exact (fields _ List.mem_cons_self).plain
      · exact rest.plain e later

private theorem names_of_same {elements : List Client.Element} {stored : List Payload.Element}
    (all : List.Forall₂ Same elements stored) : stored.map (·.name) = elements.map (·.name) := by
  induction all with
  | nil => rfl
  | cons same _ ih => rw [List.map_cons, List.map_cons, same.name, ih]

theorem count_le_bytes {stored : List Payload.Element} (built : Built stored) :
    stored.length ≤ (payloadBytes stored).length := by
  induction stored with
  | nil => simp
  | cons e rest ih =>
    have later := ih ⟨fun d member => built.storable d (List.mem_cons_of_mem _ member),
      fun d member => built.plain d (List.mem_cons_of_mem _ member)⟩
    rw [payloadBytes_cons, List.length_append,
      length_add_element (built.storable e List.mem_cons_self), elementLength,
      List.length_cons]
    omega

/-- The size of the payload, as the header of a packet announces it. -/
def announced (packet : Bytes) : Word := ofLittleEndian 32 ((packet.drop 8).take 4)

theorem requestPack_some {type : Word} {seq : Int} {elements : List Client.Element} {packet : Bytes}
    (packed : requestPack type seq elements = some packet) :
    ∃ payload, payloadPack elements = some payload ∧ packet.drop 12 = payload ∧
    (announced packet).toNat = payload.length := by
  unfold requestPack headerPack at packed
  simp only [Option.bind_eq_bind, Option.bind_eq_some_iff] at packed
  obtain ⟨payload, whole, header, ⟨seqBytes, hasSeq, sizeBytes, hasSize, eq⟩, joined⟩ := packed
  obtain ⟨-, rfl⟩ := packUnsigned_some hasSeq
  obtain ⟨fits, rfl⟩ := packUnsigned_some hasSize
  cases eq
  cases joined
  refine ⟨payload, whole, List.drop_left' (by simp), ?_⟩
  have field : announced (littleEndian type ++ littleEndian (BitVec.ofInt 32 seq) ++
      littleEndian (BitVec.ofInt 32 payload.length) ++ payload) = BitVec.ofInt 32 payload.length := by
    unfold announced
    rw [List.append_assoc, List.drop_left' (by simp), List.take_left' (by simp)]
    exact ofLittleEndian_littleEndian _ (by decide)
  rw [field, BitVec.ofInt_natCast, BitVec.toNat_ofNat]
  omega

/-- The server accepts what the client sends and reads every field back. -/
theorem request_read {type : Word} {seq : Int} {elements : List Client.Element} {packet : Bytes}
    {memory : Memory}
    (fields : ∀ e ∈ elements, Field e) (distinct : (elements.map (·.name)).Nodup)
    (packed : requestPack type seq elements = some packet) (holds : Holds memory 0 (packet.drop 12)) :
    Accepted memory (announced packet) ∧ ∀ e ∈ elements, ∃ place,
      (payloadGet e.type memory e.name ((announced packet).toNat + 1)).value = some (some place) ∧
        Reads memory place e.type e.value := by
  obtain ⟨payload, whole, same, total⟩ := requestPack_some packed
  obtain ⟨stored, all, rfl⟩ := payloadPack_some fields whole
  have built := built_of_same fields all
  rw [same] at holds
  refine ⟨accepted_iff_chain.mpr (chain_of_built built holds total), fun e member => ?_⟩
  obtain ⟨before, after, rfl⟩ := List.append_of_mem member
  obtain ⟨before', element, after', rfl, firsts, here⟩ := forall₂_split all
  have names := names_of_same firsts
  have first : ∀ d ∈ before', d.name ≠ element.name := by
    intro d inside same_name
    have listed : d.name ∈ before.map (·.name) := names ▸ List.mem_map_of_mem inside
    rw [List.map_append, List.map_cons, List.nodup_append] at distinct
    rw [same_name, here.name] at listed
    exact distinct.2.2 e.name listed e.name List.mem_cons_self rfl
  have count := count_le_bytes built
  have part : (payloadBytes (before' ++ element :: after')).length ≤
      (payloadBytes (before' ++ element :: after' ++ [payloadPutTerm])).length := by
    simp [payloadBytes]
  obtain ⟨place, result, data⟩ := get_built ((announced packet).toNat + 1) built holds first
    (by simp at count; omega)
  rw [here.type, here.name] at result
  exact ⟨place, result, reads_of_same (fields e member) here data⟩

/-! ## What the client unpacks -/

/-- A call of one of the functions `payload_put_*`. -/
inductive Put where
  | u64 (name : CString) (value : BitVec 64)
  | i64 (name : CString) (value : BitVec 64)
  | u32 (name : CString) (value : Word)
  | i32 (name : CString) (value : Word)
  | str (name : CString) (value : Option CString)

/-- What it adds to the payload. -/
def Put.element : Put → Payload.Element
  | .u64 name value => payloadPutU64 name value
  | .i64 name value => payloadPutI64 name value
  | .u32 name value => payloadPutU32 name value
  | .i32 name value => payloadPutI32 name value
  | .str name value => payloadPutStr name value

/-- What was put in, as the client has it. A missing string is an empty one. -/
def Put.value : Put → Client.Element
  | .u64 name value => ⟨name, .u64, .number value.toNat⟩
  | .i64 name value => ⟨name, .i64, .number value.toInt⟩
  | .u32 name value => ⟨name, .u32, .number value.toNat⟩
  | .i32 name value => ⟨name, .i32, .number value.toInt⟩
  | .str name value => ⟨name, .str, .text (value.getD [])⟩

/-- The limits that `payload.h` sets: names of up to 2^16 - 2 characters, strings of about 4 GiB. -/
def Put.Documented (put : Put) : Prop :=
  put.element.name.length ≤ 2 ^ 16 - 2 ∧ put.element.data.length < 2 ^ 32

private theorem typeOfTag_tag (type : PayloadType) : typeOfTag (Element.tag type) = some type := by
  cases type <;> rfl

/-- The client takes one element off the front. -/
theorem iterElements_add {element : Payload.Element} (storable : Storable element) (rest : Bytes) :
    iterElements (payloadAddElement element ++ rest) =
      (unpackValue element.type element.data).bind fun value =>
      if element.type = .terminator then some []
      else (iterElements rest).map (⟨element.name, element.type, value⟩ :: ·) := by
  have narrow := storable.nameFits
  have short := storable.dataFits
  have namelen : (ofLittleEndian 16
      (littleEndian (BitVec.ofNat 16 (element.name.length + 1)))).toNat = element.name.length + 1 := by
    rw [ofLittleEndian_littleEndian _ (by decide), BitVec.toNat_ofNat, Nat.mod_eq_of_lt narrow]
  have datalen : (ofLittleEndian 32 (littleEndian (BitVec.ofNat 32 element.data.length))).toNat =
      element.data.length := by
    rw [ofLittleEndian_littleEndian _ (by decide), BitVec.toNat_ofNat, Nat.mod_eq_of_lt short]
  have block : payloadAddElement element ++ rest = element.type.code :: 0#8 ::
      (littleEndian (BitVec.ofNat 16 (element.name.length + 1)) ++
        (littleEndian (BitVec.ofNat 32 element.data.length) ++
        ((element.name ++ [0#8]) ++ (element.data ++ rest)))) := by
    rw [add_element_eq storable]
    simp
  rw [block, littleEndian_halfword, littleEndian_word]
  simp only [List.cons_append, List.nil_append]
  rw [iterElements]
  rw [littleEndian_halfword] at namelen
  rw [littleEndian_word] at datalen
  have name : ((element.name ++ [0#8]) ++ (element.data ++ rest)).take
      (element.name.length + 1 - 1) = element.name := by
    rw [List.append_assoc, Nat.add_sub_cancel, List.take_left]
  have behind : ((element.name ++ [0#8]) ++ (element.data ++ rest)).drop (element.name.length + 1) =
      element.data ++ rest :=
    List.drop_left' (by simp)
  rw [namelen, datalen, name, behind, List.take_left, List.drop_left, ← tag_eq, typeOfTag_tag]
  simp only [Option.bind_eq_bind, Option.bind_some, Option.pure_def]
  refine Option.bind_congr fun value _ => ?_
  split
  · rfl
  · cases iterElements rest <;> rfl

private theorem long_toNat (v : BitVec 64) :
    unpackUnsigned 64 (littleEndian v) = some (v.toNat : Int) := by
  rw [unpackUnsigned, if_pos (by simp), ofLittleEndian_littleEndian _ (by decide)]

private theorem long_toInt (v : BitVec 64) : unpackSigned 64 (littleEndian v) = some v.toInt := by
  rw [unpackSigned, if_pos (by simp), ofLittleEndian_littleEndian _ (by decide)]

private theorem word_toNat (v : BitVec 32) :
    unpackUnsigned 32 (littleEndian v) = some (v.toNat : Int) := by
  rw [unpackUnsigned, if_pos (by simp), ofLittleEndian_littleEndian _ (by decide)]

private theorem word_toInt (v : BitVec 32) : unpackSigned 32 (littleEndian v) = some v.toInt := by
  rw [unpackSigned, if_pos (by simp), ofLittleEndian_littleEndian _ (by decide)]

/-- The client has the value back that was put in. -/
theorem unpack_put (put : Put) :
    (unpackValue put.element.type put.element.data).map (⟨put.element.name, put.element.type, ·⟩) =
    some put.value := by
  cases put with
  | u64 name value => simp [Put.element, payloadPutU64, unpackValue, long_toNat, Put.value]
  | i64 name value => simp [Put.element, payloadPutI64, unpackValue, long_toInt, Put.value]
  | u32 name value => simp [Put.element, payloadPutU32, unpackValue, word_toNat, Put.value]
  | i32 name value => simp [Put.element, payloadPutI32, unpackValue, word_toInt, Put.value]
  | str name value => simp [Put.element, payloadPutStr, unpackValue, Put.value]

private theorem typed_put (put : Put) : Typed put.element.type put.element.data ∧
    put.element.type ≠ .terminator := by
  cases put <;> simp [Put.element, payloadPutU64, payloadPutI64, payloadPutU32, payloadPutI32,
    payloadPutStr, Typed]

/-- The client unpacks what the server built. -/
theorem unpack_built {puts : List Put} (named : ∀ put ∈ puts, 0#8 ∉ put.element.name)
    (documented : ∀ put ∈ puts, put.Documented) :
    unpackFrom (payloadBytes (puts.map Put.element ++ [payloadPutTerm])) =
      some (puts.map Put.value) := by
  unfold unpackFrom
  induction puts with
  | nil =>
    show iterElements (payloadAddElement payloadPutTerm ++ []) = some []
    rw [iterElements_add term_storable]
    rfl
  | cons put rest ih =>
    have limits := documented put List.mem_cons_self
    obtain ⟨typed, plain⟩ := typed_put put
    have storable : Storable put.element :=
      ⟨named put List.mem_cons_self, by have := limits.1; omega, limits.2, typed⟩
    have later := ih (fun p member => named p (List.mem_cons_of_mem _ member))
      (fun p member => documented p (List.mem_cons_of_mem _ member))
    obtain ⟨value, unpacked, eq⟩ := Option.map_eq_some_iff.mp (unpack_put put)
    rw [List.map_cons, List.cons_append, payloadBytes_cons, iterElements_add storable, unpacked,
      Option.bind_some, if_neg plain, later,
      eq]
    rfl

/-- Both sides read what the other one wrote. -/
theorem codecs_agree :
    (∀ type seq elements packet memory, (∀ e ∈ elements, Field e) → (elements.map (·.name)).Nodup →
      requestPack type seq elements = some packet → Holds memory 0 (packet.drop 12) →
        Accepted memory (announced packet) ∧ ∀ e ∈ elements, ∃ place,
          (payloadGet e.type memory e.name ((announced packet).toNat + 1)).value = some (some place) ∧
            Reads memory place e.type e.value) ∧
    ∀ puts : List Put, (∀ put ∈ puts, 0#8 ∉ put.element.name) → (∀ put ∈ puts, put.Documented) →
      unpackFrom (payloadBytes (puts.map Put.element ++ [payloadPutTerm])) = some (puts.map Put.value) :=
  ⟨fun _ _ _ _ _ fields distinct packed holds => request_read fields distinct packed holds,
    fun _ named documented => unpack_built named documented⟩

/-- A request with the process 7, and a response with a signed number. -/
theorem request_and_response_agree :
    let pid : Client.Element := ⟨[0x70#8, 0x69#8, 0x64#8], .u32, .number 7⟩
    let payload : Bytes := payloadBytes [⟨.u32, [0x70#8, 0x69#8, 0x64#8], [7#8, 0#8, 0#8, 0#8]⟩,
      payloadPutTerm]
    let memory : Memory := fun address => payload.getD address.toNat 0#8
    (∃ packet place, requestPack 0x50494e47#32 1 [pid] = some packet ∧
      Accepted memory (announced packet) ∧
      Reads memory place .u32 (.number 7)) ∧
    unpackFrom (payloadBytes [payloadPutI32 [0x61#8] (-1#32), payloadPutTerm]) =
      some [⟨[0x61#8], .i32, .number (-1)⟩] := by
  intro pid payload memory
  have packed : requestPack 0x50494e47#32 1 [pid] =
      some (littleEndian 0x50494e47#32 ++ littleEndian 1#32 ++
      littleEndian (BitVec.ofNat 32 payload.length) ++ payload) := by decide
  have holds : Holds memory 0 payload := holds_of_getD (by decide) 0#8
  have field : Field pid := ⟨by decide, by decide, by simp [pid]⟩
  obtain ⟨accepted, all⟩ := codecs_agree.1 _ _ [pid] _ memory (by simpa using field) (by decide) packed
    (by rwa [List.drop_left' (by rfl)])
  obtain ⟨place, -, reads⟩ := all pid List.mem_cons_self
  exact ⟨⟨_, place, packed, accepted, reads⟩,
    codecs_agree.2 [.i32 [0x61#8] (-1#32)] (by decide)
      (by simp [Put.Documented, Put.element, payloadPutI32])⟩

/-- A name of 65535 bytes has the size 65536 in memory and 0 in its header. -/
theorem long_name_lost : ¬∀ puts : List Put, (∀ put ∈ puts, 0#8 ∉ put.element.name) →
    unpackFrom (payloadBytes (puts.map Put.element ++ [payloadPutTerm])) =
      some (puts.map Put.value) := by
  intro all
  obtain ⟨name, long, plain⟩ : ∃ name : CString, name.length = 65535 ∧ 0#8 ∉ name :=
    ⟨List.replicate 65535 0x61#8, List.length_replicate,
      fun member => absurd (List.eq_of_mem_replicate member) (by decide)⟩
  have unpacked := all [.u32 name 7#32] (by simpa [Put.element, payloadPutU32] using plain)
  have wraps : BitVec.ofNat 16 (name.length + 1) = 0#16 := by
    rw [long]
    rfl
  have bytes : payloadBytes ([Put.u32 name 7#32].map Put.element ++ [payloadPutTerm]) =
      [0x10#8, 0#8, 0#8, 0#8, 4#8, 0#8, 0#8, 0#8, 7#8, 0#8, 0#8, 0#8, 0#8, 0#8, 1#8, 0#8, 0#8, 0#8,
        0#8, 0#8, 0#8] := by
    simp only [payloadBytes, Put.element, payloadPutU32, payloadAddElement, List.map_cons,
      List.map_nil, List.cons_append,
      List.nil_append, List.flatMap_cons, List.flatMap_nil, wraps]
    rfl
  have nameless : unpackFrom (payloadBytes ([Put.u32 name 7#32].map Put.element ++ [payloadPutTerm])) =
      some [⟨[], .u32, .number 7⟩] := by
    rw [bytes]
    simp [unpackFrom, iterElements, ofLittleEndian, typeOfTag, Element.tag, unpackValue, unpackUnsigned]
  rw [nameless] at unpacked
  have named : [] = name := by simpa [Put.value] using unpacked
  rw [← named] at long
  cases long

end Adbi.ClientProofs
