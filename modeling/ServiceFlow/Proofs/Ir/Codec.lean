import ServiceFlow.Program.Pool
import ServiceFlow.Proofs.Json.Decode

/-!
# Class documents

Each part of a class is read back from its JSON form, structures by their members and alternatives
by their contents, and so is the class.  Since its form is written and read without loss, a class
is read back from its text as well.
-/

namespace ServiceFlow

open Json (Represents record? represents_str represents_list represents_option)

/-! ### Signatures -/

theorem ClassName.represents (c : ClassName) :
  Represents ClassName.decode? c.encode c
  := ⟨rfl, .str c.text⟩

theorem Primitive.represents (p : Primitive) :
  Represents Primitive.decode? p.encode p
  := by
  constructor
  · cases p <;> rfl
  · apply Json.Plain.str

theorem Ty.represents (t : Ty) :
  Represents Ty.decode? t.encode t
  := by
  induction t with
  | void => exact ⟨rfl, .str _⟩
  | primitive p => exact (p.represents.map _).tagged rfl
  | object c => exact (c.represents.map _).tagged rfl
  | array element ih => exact (ih.map _).tagged rfl

theorem FieldSig.represents (f : FieldSig) :
  Represents FieldSig.decode? f.encode f
  := by
  have howner := f.owner.represents
  have htype := f.type.represents
  constructor
  · have hrecord : record? members f.encode =
        some [some f.owner.encode, some (.str f.name), some f.type.encode] :=
      Json.record?_obj (by decide) [_, _, _] rfl
    simp [decode?, hrecord, howner.read_eq, htype.read_eq, Json.string?]
  · simp [encode, howner.plain, htype.plain]

theorem MethodSig.represents (m : MethodSig) :
  Represents MethodSig.decode? m.encode m
  := by
  have howner := m.owner.represents
  have hparams := represents_list (l := m.params) fun t _ => t.represents
  have hresult := m.result.represents
  constructor
  · have hrecord : record? members m.encode = some [some m.owner.encode, some (.str m.name),
        some (.ofList Ty.encode m.params), some m.result.encode] :=
      Json.record?_obj (by decide) [_, _, _, _] rfl
    simp [decode?, hrecord, howner.read_eq, hparams.read_eq, hresult.read_eq,
      Json.string?]
  · simp [encode, howner.plain, hparams.plain, hresult.plain]

theorem Local.represents (l : Local) :
  Represents Local.decode? l.encode l
  := by
  have htype := l.type.represents
  constructor
  · have hrecord : record? members l.encode = some [some (.str l.name), some l.type.encode] :=
      Json.record?_obj (by decide) [_, _] rfl
    simp [decode?, hrecord, htype.read_eq, Json.string?]
  · simp [encode, htype.plain]

/-! ### Statements -/

theorem Constant.represents (c : Constant) :
  Represents Constant.decode? c.encode c
  := by
  cases c with
  | string s => exact ((represents_str s).map _).tagged rfl
  | cls name => exact ((represents_str name).map _).tagged rfl
  | null => exact ⟨rfl, .str _⟩
  | int v => exact ((Json.represents_int64 v).map _).tagged rfl
  | long v => exact ((Json.represents_int64 v).map _).tagged rfl
  | float bits => exact ((Json.represents_uint32 bits).map _).tagged rfl
  | double bits => exact ((Json.represents_uint64 bits).map _).tagged rfl

theorem Operand.represents (o : Operand) :
  Represents Operand.decode? o.encode o
  := by
  cases o with
  | var l => exact (l.represents.map _).tagged rfl
  | const c => exact (c.represents.map _).tagged rfl

theorem InvokeKind.represents (k : InvokeKind) :
  Represents InvokeKind.decode? k.encode k
  := by
  constructor
  · cases k <;> rfl
  · apply Json.Plain.str

theorem Invoke.represents (i : Invoke) :
  Represents Invoke.decode? i.encode i
  := by
  have hmethod := i.method.represents
  have hreceiver := represents_option (o := i.receiver) fun l _ => ⟨l.represents, nofun⟩
  have hargs := represents_list (l := i.args) fun o _ => o.represents
  constructor
  · have hrecord : record? members i.encode = some [some i.kind.encode, some i.method.encode,
        some (.ofOption Local.encode i.receiver), some (.ofList Operand.encode i.args)] :=
      Json.record?_obj (by decide) [_, _, _, _] rfl
    simp [decode?, hrecord, i.kind.represents.read_eq, hmethod.read_eq,
      hreceiver.read_eq, hargs.read_eq]
  · simp [encode, i.kind.represents.plain, hmethod.plain, hreceiver.plain, hargs.plain]

theorem represents_instanceField (base : Local) (f : FieldSig) :
  Represents decodeInstanceField? (.obj [("base", base.encode), ("field", f.encode)]) (base, f)
  := by
  constructor
  · have hrecord : record? instanceFieldMembers
        (.obj [("base", base.encode), ("field", f.encode)]) =
        some [some base.encode, some f.encode] :=
      Json.record?_obj (by decide) [_, _] rfl
    simp [decodeInstanceField?, hrecord, base.represents.read_eq, f.represents.read_eq]
  · simp [base.represents.plain, f.represents.plain]

theorem Expr.represents (e : Expr) :
  Represents Expr.decode? e.encode e
  := by
  cases e with
  | operand o => exact (o.represents.map _).tagged rfl
  | staticField f => exact (f.represents.map _).tagged rfl
  | instanceField base f =>
      have h := represents_instanceField base f
      exact (h.map fun p => Expr.instanceField p.1 p.2).tagged rfl
  | new c => exact (c.represents.map _).tagged rfl
  | invoke i => exact (i.represents.map _).tagged rfl
  | uninterpreted source => exact ((represents_str source).map _).tagged rfl

theorem Place.represents (p : Place) :
  Represents Place.decode? p.encode p
  := by
  cases p with
  | var l => exact (l.represents.map _).tagged rfl
  | staticField f => exact (f.represents.map _).tagged rfl
  | instanceField base f =>
      have h := represents_instanceField base f
      exact (h.map fun p => Place.instanceField p.1 p.2).tagged rfl
  | arrayElement base =>
      constructor
      · have hrecord : record? arrayElementMembers (.obj [("base", base.encode)]) =
            some [some base.encode] :=
          Json.record?_obj (by decide) [_] rfl
        simp [encode, decode?, Json.tagged, Json.variant?, hrecord, base.represents.read_eq]
      · simp [encode, base.represents.plain]

theorem Origin.represents (o : Origin) :
  Represents Origin.decode? o.encode o
  := by
  cases o with
  | this => exact ⟨rfl, .str _⟩
  | parameter index => exact ((Json.represents_uint64 index).map _).tagged rfl
  | caughtException => exact ⟨rfl, .str _⟩

namespace Stmt

variable {j k l : Json}

theorem represents_identity {x : Local} {source : Origin} (hx : Represents Local.decode? j x)
    (hsource : Represents Origin.decode? k source) :
  Represents decodeIdentity? (.obj [("local", j), ("source", k)]) (.identity x source)
  := by
  constructor
  · have hrecord : record? identityMembers (.obj [("local", j), ("source", k)]) =
        some [some j, some k] :=
      Json.record?_obj (by decide) [_, _] rfl
    simp [decodeIdentity?, hrecord, hx.read_eq, hsource.read_eq]
  · simp [hx.plain, hsource.plain]

theorem represents_assign {place : Place} {value : Expr} (hplace : Represents Place.decode? j place)
    (hvalue : Represents Expr.decode? k value) :
  Represents decodeAssign? (.obj [("place", j), ("value", k)]) (.assign place value)
  := by
  constructor
  · have hrecord : record? assignMembers (.obj [("place", j), ("value", k)]) =
        some [some j, some k] :=
      Json.record?_obj (by decide) [_, _] rfl
    simp [decodeAssign?, hrecord, hplace.read_eq, hvalue.read_eq]
  · simp [hplace.plain, hvalue.plain]

theorem represents_goto {target : UInt32} (htarget : Represents Json.uint32? j target) :
  Represents decodeGoto? (.obj [("target", j)]) (.goto target)
  := by
  constructor
  · have hrecord : record? gotoMembers (.obj [("target", j)]) = some [some j] :=
      Json.record?_obj (by decide) [_] rfl
    simp [decodeGoto?, hrecord, htarget.read_eq]
  · simp [htarget.plain]

theorem represents_branch {operands : List Operand} {target : UInt32}
    (hoperands : Represents (Json.list? Operand.decode?) j operands)
    (htarget : Represents Json.uint32? k target) :
  Represents decodeBranch? (.obj [("operands", j), ("target", k)]) (.branch operands target)
  := by
  constructor
  · have hrecord : record? branchMembers (.obj [("operands", j), ("target", k)]) =
        some [some j, some k] :=
      Json.record?_obj (by decide) [_, _] rfl
    simp [decodeBranch?, hrecord, hoperands.read_eq, htarget.read_eq]
  · simp [hoperands.plain, htarget.plain]

theorem represents_switch {key : Operand} {targets : List UInt32} {default : UInt32}
    (hkey : Represents Operand.decode? j key)
    (htargets : Represents (Json.list? Json.uint32?) k targets)
    (hdefault : Represents Json.uint32? l default) :
  Represents decodeSwitch? (.obj [("key", j), ("targets", k), ("default", l)])
    (.switch key targets default)
  := by
  constructor
  · have hrecord : record? switchMembers (.obj [("key", j), ("targets", k), ("default", l)]) =
        some [some j, some k, some l] :=
      Json.record?_obj (by decide) [_, _, _] rfl
    simp [decodeSwitch?, hrecord, hkey.read_eq, htargets.read_eq, hdefault.read_eq]
  · simp [hkey.plain, htargets.plain, hdefault.plain]

theorem represents (s : Stmt) :
  Represents decode? s.encode s
  := by
  cases s with
  | identity x source => exact (represents_identity x.represents source.represents).tagged rfl
  | assign place value => exact (represents_assign place.represents value.represents).tagged rfl
  | invoke i => exact (i.represents.map _).tagged rfl
  | ret value => exact (value.represents.map _).tagged rfl
  | retVoid => exact ⟨rfl, .str _⟩
  | goto target => exact (represents_goto (Json.represents_uint32 target)).tagged rfl
  | branch operands target =>
      have hoperands := represents_list (l := operands) fun o _ => o.represents
      exact (represents_branch hoperands (Json.represents_uint32 target)).tagged rfl
  | switch key targets default =>
      have htargets := represents_list (l := targets) fun o _ => Json.represents_uint32 o
      have hdefault := Json.represents_uint32 default
      exact (represents_switch key.represents htargets hdefault).tagged rfl
  | throw value => exact (value.represents.map _).tagged rfl
  | nop => exact ⟨rfl, .str _⟩

end Stmt

/-! ### Classes -/

theorem Body.represents (b : Body) :
  Represents Body.decode? b.encode b
  := by
  have hlocals := represents_list (l := b.locals) fun l _ => l.represents
  have hstmts := represents_list (l := b.stmts) fun s _ => s.represents
  constructor
  · have hrecord : record? members b.encode =
        some [some (.ofList Local.encode b.locals), some (.ofList Stmt.encode b.stmts)] :=
      Json.record?_obj (by decide) [_, _] rfl
    simp [decode?, hrecord, hlocals.read_eq, hstmts.read_eq]
  · simp [encode, hlocals.plain, hstmts.plain]

theorem Method.represents (m : Method) :
  Represents Method.decode? m.encode m
  := by
  have hsignature := m.signature.represents
  have hbody := represents_option (o := m.body) fun b _ => ⟨b.represents, nofun⟩
  constructor
  · have hrecord : record? members m.encode = some [some m.signature.encode,
        some (.bool m.isStatic), some (.ofOption Body.encode m.body)] :=
      Json.record?_obj (by decide) [_, _, _] rfl
    simp [decode?, hrecord, hsignature.read_eq, hbody.read_eq, Json.bool?]
  · simp [encode, hsignature.plain, hbody.plain]

theorem ClassDecl.represents (c : ClassDecl) :
  Represents ClassDecl.decode? c.encode c
  := by
  have hname := c.name.represents
  have hsuper := represents_option (o := c.superclass) fun d _ => ⟨d.represents, nofun⟩
  have hinterfaces := represents_list (l := c.interfaces) fun d _ => d.represents
  have houter := represents_option (o := c.outer) fun d _ => ⟨d.represents, nofun⟩
  have hmethods := represents_list (l := c.methods) fun m _ => m.represents
  constructor
  · have hrecord : record? members c.encode = some [some c.name.encode,
        some (.ofOption ClassName.encode c.superclass),
        some (.ofList ClassName.encode c.interfaces),
        some (.ofOption ClassName.encode c.outer), some (.ofList Method.encode c.methods)] :=
      Json.record?_obj (by decide) [_, _, _, _, _] rfl
    simp [decode?, hrecord, hname.read_eq, hsuper.read_eq,
      hinterfaces.read_eq, houter.read_eq, hmethods.read_eq]
  · simp [encode, hname.plain, hsuper.plain, hinterfaces.plain, houter.plain, hmethods.plain]

/-- A document of a class is that class under its own name and malformed under any other. -/
theorem ClassDecl.ofDocument_encode (n : ClassName) (c : ClassDecl) :
  ofDocument n (some c.encode) =
    if c.name = n then .ok c else .error (.malformed n (.declares c.name))
  := by
  simp [ofDocument, c.represents.read_eq]

/-- A class is decoded from its form, and from the text of the form under its own name only, if the
form is not nested too deeply to be read. -/
theorem ClassDecl.ofText_compress_encode (c : ClassDecl) :
  decode? c.encode = some c ∧
  (c.encode.depth ≤ Json.maxDepth → ∀ n,
    (ofText n c.encode.compress = .ok c ↔ c.name = n) ∧
    (c.name ≠ n → ofText n c.encode.compress = .error (.malformed n (.declares c.name))))
  := by
  refine ⟨c.represents.read_eq, fun hdepth n => ?_⟩
  rw [ofText, Json.parse?_compress c.represents.plain.exact hdepth, ofDocument_encode]
  by_cases hname : c.name = n <;> simp [hname]

namespace Documented

/-! A class with a field of an array type, texts with characters to escape, and the least integer
and the largest position. -/

def owner : ClassName := ⟨"a.Outer$Inner"⟩
def table : FieldSig := ⟨owner, "table", .array (.array (.primitive .long))⟩
def text : Local := ⟨"s", .string⟩

def decl : ClassDecl := ⟨owner, some .object, [⟨"b.Service"⟩], some ⟨"a.Outer"⟩, [
  ⟨⟨owner, "<init>", [.string], .void⟩, false, some ⟨[text], [
    .identity text (.parameter 0),
    .assign (.var text) (.operand (.const (.string "\"\\\n\x01\u00e9"))),
    .assign (.staticField table) (.uninterpreted "new long[1][]"),
    .branch [.var text, .const .null] 4294967295,
    .switch (.const (.long (-9223372036854775808))) [0, 1] 2,
    .retVoid]⟩⟩,
  ⟨⟨owner, "run", [], .void⟩, false, none⟩]⟩

theorem ofText_decl :
  decl.encode.depth ≤ Json.maxDepth ∧
  ClassDecl.ofText owner decl.encode.compress = .ok decl ∧
  ClassDecl.ofText ⟨"a.Outer"⟩ decl.encode.compress =
    .error (.malformed ⟨"a.Outer"⟩ (.declares owner))
  := by
  have hdepth : decl.encode.depth ≤ Json.maxDepth := by decide
  have hread := (ClassDecl.ofText_compress_encode decl).2 hdepth
  exact ⟨hdepth, (hread owner).1.2 rfl, (hread ⟨"a.Outer"⟩).2 (by decide)⟩

end Documented

end ServiceFlow
