import Adbi.Linking

/-! Which injectables the server holds: `injectable_create`, the built-in
injectables and `injectable_load`. The processes that an injectable is injected into
afterwards are not part of this state. -/
namespace Adbi.Loading
open Adbi.Lib Adbi.Linking
open Adbi.Payload (CString)

/-- The trees of `injectable.c`, and what `injectable_t` has besides its file. -/
structure Server where
  loaded : Loaded
  injectables : OrderedTree Nat Pointer
  filename : Pointer → CString
  builtin : Pointer → Bool
  nextIid : BitVec 32
  libraries_listed : ∀ node ∈ loaded.libraries.entries, node ∈ injectables.entries
  bindings_listed : ∀ node ∈ loaded.bindings.entries, node ∈ injectables.entries

/-- The server before `injectable_init`. -/
def start : Server where
  loaded := ⟨.empty, .empty, fun _ => ⟨[], false, [], [], [], []⟩, nofun, nofun⟩
  injectables := .empty
  filename _ := []
  builtin _ := false
  nextIid := 1
  libraries_listed := nofun
  bindings_listed := nofun

/-- Memory of `adbi_malloc` is not in use. -/
def Fresh (s : Server) (pointer : Pointer) : Prop := ∀ node ∈ s.injectables.entries, node.2 ≠ pointer

/-- The texts `<built-in ` and `>`. -/
def builtinName (name : CString) : CString :=
  [0x3c#8, 0x62#8, 0x75#8, 0x69#8, 0x6c#8, 0x74#8, 0x2d#8, 0x69#8, 0x6e#8, 0x20#8] ++ name ++ [0x3e#8]

/-- `injectable_create`, with the memory that the injectable is put into. The
insertions assert that the id is new. -/
def injectableCreate (s : Server) (pointer : Pointer) (fresh : Fresh s pointer) (injfile : Injfile)
    (filename : Option CString) :
    Except Fault Server :=
  let id := s.nextIid.toNat
  match inserted : s.injectables.tryInsert id pointer with
  | none => .error .assertion
  | some injectables =>
    let files := Function.update s.loaded.injfile pointer injfile
    have kept (node) (member : node ∈ s.injectables.entries) : files node.2 = s.loaded.injfile node.2 :=
      Function.update_of_ne (fresh node member) _ _
    have own : files pointer = injfile := Function.update_self _ _ _
    have listed (node) (member : node ∈ s.injectables.entries) : node ∈ injectables.entries :=
      (OrderedTree.mem_tryInsert inserted).mpr (.inr member)
    have new : (id, pointer) ∈ injectables.entries := (OrderedTree.mem_tryInsert inserted).mpr (.inl rfl)
    let names := Function.update s.filename pointer (filename.getD (builtinName injfile.name))
    let builtin := Function.update s.builtin pointer filename.isNone
    if library : injfile.library = true then
      match put : s.loaded.libraries.tryInsert id pointer with
      | none => .error .assertion
      | some libraries => .ok {
          loaded := {
            libraries, bindings := s.loaded.bindings, injfile := files
            libraries_library := fun node member => by
              rcases (OrderedTree.mem_tryInsert put).mp member with rfl | member
              · rw [own, library]
              · rw [kept node (s.libraries_listed node member), s.loaded.libraries_library node member]
            bindings_bound := fun node member => by
              rw [kept node (s.bindings_listed node member), s.loaded.bindings_bound node member] }
          injectables, filename := names, builtin, nextIid := s.nextIid + 1
          libraries_listed := fun node member => by
            rcases (OrderedTree.mem_tryInsert put).mp member with rfl | member
            · exact new
            · exact listed node (s.libraries_listed node member)
          bindings_listed := fun node member => listed node (s.bindings_listed node member) }
    else
      match put : s.loaded.bindings.tryInsert id pointer with
      | none => .error .assertion
      | some bindings => .ok {
          loaded := {
            libraries := s.loaded.libraries, bindings, injfile := files
            libraries_library := fun node member => by
              rw [kept node (s.libraries_listed node member), s.loaded.libraries_library node member]
            bindings_bound := fun node member => by
              rcases (OrderedTree.mem_tryInsert put).mp member with rfl | member
              · rw [own, Bool.eq_false_iff.mpr library]
              · rw [kept node (s.bindings_listed node member), s.loaded.bindings_bound node member] }
          injectables, filename := names, builtin, nextIid := s.nextIid + 1
          libraries_listed := fun node member => listed node (s.libraries_listed node member)
          bindings_listed := fun node member => by
            rcases (OrderedTree.mem_tryInsert put).mp member with rfl | member
            · exact new
            · exact listed node (s.bindings_listed node member) }

/-- `injectable_get_by_file`. -/
def injectableGetByFile (s : Server) (filename : CString) : Option Pointer :=
  (s.injectables.entries.find? fun node => !s.builtin node.2 && s.filename node.2 == filename).map
    fun node => node.2

/-- What `injectable_load` answers with: the message of a refusal, or the injectable. -/
inductive Answer where
  | refused (msg : String)
  | loaded (server : Server) (injectable : Pointer)

/-- `injectable_load`, with what `injfile_load` makes of the file. -/
def injectableLoad (s : Server) (pointer : Pointer) (fresh : Fresh s pointer) (filename : CString)
    (injfileLoad : Option Injfile) :
    Except Fault Answer :=
  if (injectableGetByFile s filename).isSome then .ok (.refused "already loaded")
  else
    match injfileLoad with
    | none => .ok (.refused "i/o error or file malformed")
    | some injfile =>
      if !injfile.library && (injectableGetBinding s.loaded injfile.name).isSome then
        .ok (.refused "invalid binding")
      else do
        let server ← injectableCreate s pointer fresh injfile (some filename)
        return .loaded server pointer

/-- The servers that built-in injectables and loading lead to. -/
inductive Admitted : Server → Prop
  | start : Admitted start
  | builtin {s after : Server} {pointer : Pointer} {fresh : Fresh s pointer} {injfile : Injfile}
      (before : Admitted s)
      (created : injectableCreate s pointer fresh injfile none = .ok after) : Admitted after
  | load {s after : Server} {pointer injectable : Pointer} {fresh : Fresh s pointer}
      {filename : CString} {file : Option Injfile}
      (before : Admitted s) (loaded : injectableLoad s pointer fresh filename file =
        .ok (.loaded after injectable)) : Admitted after

end Adbi.Loading
