import ServiceFlow.Proofs.Program.CallGraph
import ServiceFlow.Proofs.Propagation.Builder
import ServiceFlow.Proofs.Propagation.Completion
import ServiceFlow.Proofs.Resolve.SingleCall

/-!
# Built names

A method may put the name of a class together in a string builder before it loads the class.  The
analysis of its class runs the method once, and finds the class of the name that all parts make
together.
-/

namespace ServiceFlow

/-- A part of a name, and whether the result of its append goes back to the local of the builder. -/
structure NamePart where
  text : String
  assigned : Bool
deriving DecidableEq, Inhabited

/-- A class with a method that builds a name from parts and loads the class of that name.  The
builder may be made from the first part. -/
structure BuiltName where
  owner : ClassName
  builder : Local
  name : Local
  cls : Local
  initialized : Bool
  parts : List NamePart
deriving DecidableEq, Inhabited

namespace BuiltName

variable (x : BuiltName)

def appends : List Builder.Append :=
  (if x.initialized then x.parts.tail else x.parts).map
    (fun p => ⟨x.builder, p.text, if p.assigned then some x.builder else none⟩)

def usage : Builder.Usage where
  builder := x.builder
  initial := if x.initialized then x.parts.head?.map NamePart.text else none
  appends := x.appends
  source := x.builder
  target := x.name

def run : MethodSig := ⟨x.owner, "run", [], .void⟩

def forName : Invoke := ⟨.static, ⟨.cls, "forName", [.string], .cls⟩, none, [.var x.name]⟩

def stmts : List Stmt :=
  x.usage.stmts ++ [.assign (.var x.cls) (.invoke x.forName), .invoke (loadOf x.cls), .retVoid]

def body : Body := ⟨[x.builder, x.name, x.cls], x.stmts⟩

def decl : ClassDecl := ⟨x.owner, none, [], none, [⟨x.run, true, some x.body⟩]⟩

/-- The name that the parts make together. -/
def text : String := String.join (x.parts.map NamePart.text)

/-- The statement that loads the class. -/
def loadSite : LoadSite := ⟨⟨x.run, x.usage.stmts.length + 1⟩, x.cls⟩

/-! ### The name -/

theorem text_usage :
  x.usage.text = x.text
  := by
  have happends : x.appends.map Builder.Append.text =
      (if x.initialized then x.parts.tail else x.parts).map NamePart.text := by
    simp [appends, Function.comp_def]
  rw [Builder.Usage.text, text]
  change (if x.initialized then x.parts.head?.map NamePart.text else none).getD "" ++
    String.join (x.appends.map Builder.Append.text) = _
  rw [happends]
  cases x.initialized with
  | false => simp
  | true =>
      cases x.parts with
      | nil => simp
      | cons p parts => simp [String.join_cons]

/-- All appends go to the builder, and each keeps its text up to date. -/
theorem isCurrent_appends {appends : List Builder.Append} {b : Local}
    (h : ∀ a ∈ appends, a.receiver = b) (holders : List Local) (current : Local → Bool)
    (hb : b ∈ holders) (hcurrent : current b) :
  Builder.appendsToHolders holders appends ∧ b ∈ appends.foldl Builder.Append.holders holders ∧
    appends.foldl Builder.Append.current current b
  := by
  induction appends generalizing holders current with
  | nil => simp [Builder.appendsToHolders, hb, hcurrent]
  | cons a appends ih =>
      have ha : a.receiver = b := h a List.mem_cons_self
      have hnext : a.current current b := by
        rw [Builder.Append.current, if_pos (.inl ha.symm), ha]
        apply hcurrent
      have hrest : ∀ a' ∈ appends, a'.receiver = b :=
        fun a' ha' => h a' (List.mem_cons_of_mem _ ha')
      obtain ⟨hvalid, hmem, htext⟩ := ih hrest (a.holders holders) (a.current current)
        (List.mem_append_right _ hb) hnext
      refine ⟨?_, hmem, htext⟩
      rw [Builder.appendsToHolders, ha, Bool.and_eq_true, decide_eq_true_eq]
      use hb

/-- After the use of the builder the name is known. -/
theorem getVar_name (v : View) (m : MethodSig) (s : Store) :
  (x.usage.stmts.foldl (Stmt.apply v m) s).getVar m x.name = .str x.text
  := by
  have hreceivers : ∀ a ∈ x.appends, a.receiver = x.builder := by simp [appends]
  obtain ⟨hvalid, hmem, hcurrent⟩ := isCurrent_appends hreceivers [x.builder]
    (fun l => l = x.builder) List.mem_cons_self (decide_eq_true rfl)
  obtain ⟨kept, hkept, _, htext⟩ := (Builder.tracks_initial (v := v) (m := m)
    (s := (Stmt.assign (.var x.builder) (.new .stringBuilder)).apply v m s) x.builder
    x.usage.initial).appends (v := v) hvalid x.builder hmem
  have hname : kept = x.text := by
    rw [← text_usage]
    apply htext.2 hcurrent
  rw [Builder.Usage.stmts, List.foldl_cons, List.foldl_cons, List.foldl_append, ← hname]
  apply Builder.getVar_toString hkept

/-! ### The run -/

theorem apply_forName (v : View) (m : MethodSig) {s : Store} {text : String}
    (h : s.getVar m x.name = .str text) :
  ((Stmt.assign (.var x.cls) (.invoke x.forName)).apply v m s).getVar m x.cls = .cls text
  := by
  have hop : LibraryCall.ofInvoke? x.forName = some .classForName := rfl
  rw [Stmt.apply, Place.write, Store.getVar_setVar, if_pos ⟨rfl, rfl⟩, Expr.eval, Invoke.effect,
    hop]
  simp [Invoke.firstValue, forName, Operand.eval, h, Value.classForName]

/-- The statements of the use of a builder go on to the next one, and have library calls only. -/
theorem library_of_mem_usage {stmt : Stmt} (h : stmt ∈ x.usage.stmts) :
  stmt.fallsThrough ∧
    ∀ i, stmt.invoke? = some i → (LibraryCall.ofInvoke? i).isSome ∧ i.kind ≠ .static
  := by
  rw [Builder.Usage.stmts, List.mem_cons, List.mem_cons, List.mem_append, List.mem_singleton,
    List.mem_map] at h
  rcases h with rfl | rfl | ⟨a, _, rfl⟩ | rfl
  · use rfl
    intro i hi
    cases hi
  · use rfl
    intro i hi
    obtain rfl := Option.some.inj hi
    use rfl
    intro hkind
    cases hkind
  · have hinvoke : a.stmt.invoke? = some a.invoke := by
      cases hresult : a.result <;> simp [Builder.Append.stmt, hresult, Stmt.invoke?]
    constructor
    · cases hresult : a.result <;> simp [Builder.Append.stmt, hresult, Stmt.fallsThrough]
    · intro i hi
      obtain rfl := Option.some.inj (hinvoke.symm.trans hi)
      use rfl
      intro hkind
      cases hkind
  · use rfl
    intro i hi
    obtain rfl := Option.some.inj hi
    use rfl
    intro hkind
    cases hkind

/-- The view of the class alone. -/
def view : View := .ofList [x.decl]

theorem methods_view :
  x.view.methods = [⟨x.run, true, some x.body⟩]
  := rfl

theorem isRegular_view :
  x.view.IsRegular
  := by
  constructor
  · intro d hd m hm
    obtain rfl := List.mem_singleton.1 hd
    obtain rfl := List.mem_singleton.1 hm
    rfl
  · simp [methods_view]

theorem body?_run :
  x.view.body? x.run = some x.body
  := x.isRegular_view.body? (d := ⟨x.run, true, some x.body⟩) List.mem_cons_self

theorem mem_stmts_of_stmt? {q : StmtId} {stmt : Stmt} (h : x.view.stmt? q = some stmt) :
  stmt ∈ x.stmts
  := by
  obtain ⟨b, hb, hoffset⟩ := View.stmt?_eq_some h
  obtain ⟨d, hd, _, hbody⟩ := View.exists_method_of_body? hb
  rw [methods_view] at hd
  obtain rfl := List.mem_singleton.1 hd
  obtain rfl := Option.some.inj hbody
  apply List.mem_of_getElem? hoffset

theorem isStraight_view :
  x.view.IsStraight skips
  := by
  constructor
  · intro q stmt hstmt
    rcases List.mem_append.1 (x.mem_stmts_of_stmt? hstmt) with hmem | hmem
    · have hfalls := (x.library_of_mem_usage hmem).1
      cases stmt <;> simp_all [Stmt.fallsThrough, Stmt.jumps]
    · simp only [List.mem_cons, List.not_mem_nil, or_false] at hmem
      rcases hmem with rfl | rfl | rfl <;> rfl
  · intro q i hi
    obtain ⟨stmt, hstmt, hinvoke⟩ := Option.bind_eq_some_iff.1 hi
    rcases List.mem_append.1 (x.mem_stmts_of_stmt? hstmt) with hmem | hmem
    · have hlibrary := ((x.library_of_mem_usage hmem).2 i hinvoke).1
      simp [LoadTarget.skips, hlibrary]
    · simp only [List.mem_cons, List.not_mem_nil, or_false] at hmem
      rcases hmem with rfl | rfl | rfl
      · obtain rfl := Option.some.inj hinvoke
        rfl
      · obtain rfl := Option.some.inj hinvoke
        rfl
      · cases hinvoke

/-- The class has one load call, of which nothing is known at first. -/
theorem loadCalls_decl :
  x.decl.loadCalls {} = [x.loadSite.call]
  := by
  have husage : (x.usage.stmts.zipIdx).filterMap (({} : LoadTarget).callAt? x.run) = [] := by
    apply List.filterMap_eq_nil_iff.2
    rintro ⟨stmt, o⟩ hmem
    have hkind := (x.library_of_mem_usage (List.fst_mem_of_mem_zipIdx hmem)).2
    rw [LoadTarget.callAt?, Option.map_eq_none_iff, Option.filter_eq_none_iff]
    intro i hi haccepts
    simp [LoadTarget.accepts, (hkind i hi).2] at haccepts
  have hcalls : x.decl.loadCalls {} = ({} : LoadTarget).callsIn x.run x.body := by
    simp [ClassDecl.loadCalls, decl]
  rw [hcalls, LoadTarget.callsIn_eq_filterMap, body, stmts, List.zipIdx_append,
    List.filterMap_append, husage, Nat.zero_add]
  rfl

theorem take_stmts :
  x.body.stmts.take (x.usage.stmts.length + 1) =
    x.usage.stmts ++ [.assign (.var x.cls) (.invoke x.forName)]
  := by
  simp [body, stmts, List.take_append]

/-- Before the class is loaded it is known. -/
theorem getVar_cls :
  (x.view.storeBefore .empty x.loadSite.site).getVar x.run x.cls = .cls x.text
  := by
  rw [loadSite, View.storeBefore_of_body? x.body?_run, take_stmts, List.foldl_append]
  apply x.apply_forName
  apply x.getVar_name

/-- The run from the method is possible and resolves the call. -/
theorem outcome_run {config : Config} (htarget : config.target = {})
    (hfacts : 1 ≤ config.solver.maxFactsPerStmt.toNat)
    (hiterations : x.stmts.length ≤ config.solver.maxIterations.toNat) :
  (config.run x.view x.run .empty).map (fun r => r.outcome x.loadSite.call) =
    .ok ⟨[x.loadSite.loaded x.text], 1, 0⟩
  := by
  have hoffset : x.usage.stmts.length + 1 < x.body.stmts.length := by simp [body, stmts]
  have hbefore : ∀ stmt ∈ x.body.stmts.take (x.usage.stmts.length + 1), stmt.fallsThrough := by
    rw [take_stmts]
    intro stmt hmem
    rcases List.mem_append.1 hmem with hmem | hmem
    · apply (x.library_of_mem_usage hmem).1
    · rw [List.mem_singleton.1 hmem]
      rfl
  obtain ⟨r, hrun, hstore⟩ := Run.exists_factsAt_of_isStraight (l := config.solver.limits)
    x.isStraight_view x.body?_run .empty hoffset hfacts hiterations hbefore
  rw [Config.run, htarget, hrun]
  change Except.ok (r.outcome _) = _
  rw [x.loadSite.outcome_of_factsAt hstore x.getVar_cls]
  rfl

/-- The analysis of a class that loads a class by a built name finds the class of the name, in a run
from the method itself, and nothing else. -/
theorem analyze_eq_loaded {pool : ClassPool} (hload : pool.load x.owner = .ok x.decl)
    {config : Config} (htarget : config.target = {})
    (hfacts : 1 ≤ config.solver.maxFactsPerStmt.toNat)
    (hiterations : x.stmts.length ≤ config.solver.maxIterations.toNat) :
  pool.analyze config x.owner = .ok {
    cls := x.owner
    resolutions := [⟨x.run, [⟨x.run, x.loadSite.loaded x.text⟩]⟩]
    diagnostics := []
    counters := { literal := 0, dataflow := 1, unresolved := 0, solverFailures := 0 } }
  := by
  have hown : (Session.start pool config x.decl).outcome x.loadSite.call x.run .empty =
      .ok ⟨[x.loadSite.loaded x.text], 1, 0⟩ := x.outcome_run htarget hfacts hiterations
  rw [← Session.seeds_start pool config (d := x.decl) rfl] at hown
  have hresolve : (Session.start pool config x.decl).resolve x.loadSite.call =
      .searched _ := Session.resolve_of_settled rfl hown rfl
  have hcalls : x.decl.loadCalls config.target = [x.loadSite.call] := by
    rw [htarget, loadCalls_decl]
  rw [ClassPool.analyze_of_single hload hcalls hresolve rfl (List.nodup_singleton _)]
  rfl

/-- The parts of a name, the second one with its result assigned back. -/
def dotted : BuiltName where
  owner := ⟨"a.Loads"⟩
  builder := ⟨"sb", .object .stringBuilder⟩
  name := ⟨"s", .string⟩
  cls := ⟨"c", .cls⟩
  initialized := true
  parts := [⟨"a.", false⟩, ⟨"b.", true⟩, ⟨"Impl", false⟩]

/-- The least limits are enough for a name of three parts. -/
theorem analyze_dotted :
  let config : Config := { Preset.fast.config with solver := ⟨8, 1⟩ }
  dotted.stmts.length = 8 ∧
  (ClassPool.ofClasses [dotted.decl]).load dotted.owner = .ok dotted.decl ∧
  (ClassPool.ofClasses [dotted.decl]).analyze config dotted.owner = .ok {
    cls := dotted.owner
    resolutions := [⟨dotted.run, [⟨dotted.run,
      ⟨⟨dotted.run, 6⟩, loadOf dotted.cls, [⟨.var dotted.cls, .cls, .cls "a.b.Impl"⟩]⟩⟩]⟩]
    diagnostics := []
    counters := { literal := 0, dataflow := 1, unresolved := 0, solverFailures := 0 } }
  := by
  intro config
  refine ⟨rfl, rfl, ?_⟩
  apply analyze_eq_loaded dotted rfl rfl
  · decide
  · decide

end BuiltName

end ServiceFlow
