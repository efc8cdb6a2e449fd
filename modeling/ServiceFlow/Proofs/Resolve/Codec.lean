import ServiceFlow.Proofs.Value.Codec
import ServiceFlow.Resolve.Codec

/-!
# Forms of analyses

The analysis of a class is read back from its JSON form exactly if it is canonical: its values are,
and the offsets of its sites have 32 bits.  Nothing of a finding is lost, the method it was entered
by included.
-/

namespace ServiceFlow

open Json (Represents record? represents_str represents_list)

/-! ### Sites and counters -/

theorem StmtId.represents_obj {j k : Json} {m : MethodSig} {offset : Nat}
    (hm : Represents MethodSig.decode? j m)
    (hoffset : Represents (Json.natBelow? UInt32.size) k offset) :
  Represents StmtId.decode? (.obj [("method", j), ("offset", k)]) ⟨m, offset⟩
  := by
  constructor
  · have hrecord : record? members (.obj [("method", j), ("offset", k)]) =
        some [some j, some k] :=
      Json.record?_obj (by decide) [_, _] rfl
    simp [decode?, hrecord, hm.read_eq, hoffset.read_eq]
  · simp [hm.plain, hoffset.plain]

theorem StmtId.represents {p : StmtId} (h : p.offset < UInt32.size) :
  Represents StmtId.decode? p.encode p
  := StmtId.represents_obj p.method.represents (Json.represents_natBelow h (by decide))

theorem StmtId.offset_lt_of_decode? {j : Json} {p : StmtId} (h : StmtId.decode? j = some p) :
  p.offset < UInt32.size
  := by
  unfold StmtId.decode? at h
  split at h
  · simp only [Option.bind_eq_bind, Option.bind_eq_some_iff, Option.pure_def,
      Option.some.injEq] at h
    obtain ⟨method, -, offset, hoffset, rfl⟩ := h
    obtain ⟨k, hk⟩ := Json.exists_of_required hoffset
    exact Json.lt_of_natBelow? hk
  · cases h

theorem Counters.represents_obj {i j k l : Json} {literal dataflow unresolved failures : UInt64}
    (hliteral : Represents Json.uint64? i literal) (hdataflow : Represents Json.uint64? j dataflow)
    (hunresolved : Represents Json.uint64? k unresolved)
    (hfailures : Represents Json.uint64? l failures) :
  Represents Counters.decode?
    (.obj [("literal", i), ("dataflow", j), ("unresolved", k), ("solver_failures", l)])
    ⟨literal, dataflow, unresolved, failures⟩
  := by
  constructor
  · have hrecord : record? members
        (.obj [("literal", i), ("dataflow", j), ("unresolved", k), ("solver_failures", l)]) =
        some [some i, some j, some k, some l] :=
      Json.record?_obj (by decide) [_, _, _, _] rfl
    simp [decode?, hrecord, hliteral.read_eq, hdataflow.read_eq, hunresolved.read_eq,
      hfailures.read_eq]
  · simp [hliteral.plain, hdataflow.plain, hunresolved.plain, hfailures.plain]

theorem Counters.represents (c : Counters) :
  Represents Counters.decode? c.encode c
  := Counters.represents_obj (Json.represents_uint64 c.literal) (Json.represents_uint64 c.dataflow)
    (Json.represents_uint64 c.unresolved) (Json.represents_uint64 c.solverFailures)

/-! ### Calls -/

section

variable {readValue : Json → Option Value}

theorem LoadArg.represents {a : LoadArg} (h : Represents readValue a.value.encode a.value) :
  Represents (LoadArg.decodeWith? readValue) a.encode a
  := by
  have hoperand := a.operand.represents
  have htype := a.type.represents
  constructor
  · have hrecord : record? members a.encode =
        some [some a.operand.encode, some a.type.encode, some a.value.encode] :=
      Json.record?_obj (by decide) [_, _, _] rfl
    simp [decodeWith?, hrecord, hoperand.read_eq, htype.read_eq, h.read_eq]
  · simp [encode, hoperand.plain, htype.plain, h.plain]

/-- A call is read back if the values of its arguments are. -/
theorem LoadCall.represents {c : LoadCall} (hsite : c.site.offset < UInt32.size)
    (hargs : ∀ a ∈ c.args, Represents readValue a.value.encode a.value) :
  Represents (LoadCall.decodeWith? readValue) c.encode c
  := by
  have hsite := StmtId.represents hsite
  have hinvoke := c.invoke.represents
  have hargs := represents_list fun a ha => LoadArg.represents (hargs a ha)
  constructor
  · have hrecord : record? members c.encode = some [some (StmtId.encode c.site),
        some c.invoke.encode, some (.ofList LoadArg.encode c.args)] :=
      Json.record?_obj (by decide) [_, _, _] rfl
    simp [decodeWith?, hrecord, hsite.read_eq, hinvoke.read_eq, hargs.read_eq]
  · simp [encode, hsite.plain, hinvoke.plain, hargs.plain]

end

/-- The values of the call are canonical, and the offset of its site has 32 bits. -/
def LoadCall.Canonical (c : LoadCall) : Prop :=
  c.site.offset < UInt32.size ∧ ∀ a ∈ c.args, a.value.Canonical

theorem LoadCall.Canonical.represents {c : LoadCall} (h : c.Canonical) :
  Represents LoadCall.decode? c.encode c
  := LoadCall.represents h.1 fun a ha => (h.2 a ha).represents_decode?

theorem LoadCall.Canonical.represents_call {c : LoadCall} (h : c.Canonical) :
  Represents Diagnostic.call? c.encode c
  := LoadCall.represents h.1 fun a ha => (h.2 a ha).represents_decodeNumbered?

theorem LoadArg.exists_of_decodeWith? {readValue : Json → Option Value} {j : Json} {a : LoadArg}
    (h : LoadArg.decodeWith? readValue j = some a) :
  ∃ k, readValue k = some a.value
  := by
  unfold LoadArg.decodeWith? at h
  split at h
  · simp only [Option.bind_eq_bind, Option.bind_eq_some_iff, Option.pure_def,
      Option.some.injEq] at h
    obtain ⟨operand, -, type, -, value, hvalue, rfl⟩ := h
    exact Json.exists_of_required hvalue
  · cases h

/-- Calls are read as canonical ones if their values are. -/
theorem LoadCall.canonical_of_decodeWith? {readValue : Json → Option Value}
    (hread : ∀ j v, readValue j = some v → v.Canonical) {j : Json} {c : LoadCall}
    (h : LoadCall.decodeWith? readValue j = some c) :
  c.Canonical
  := by
  unfold LoadCall.decodeWith? at h
  split at h
  · simp only [Option.bind_eq_bind, Option.bind_eq_some_iff, Option.pure_def,
      Option.some.injEq] at h
    obtain ⟨site, hsite, invoke, -, args, hargs, rfl⟩ := h
    obtain ⟨_, hsite⟩ := Json.exists_of_required hsite
    obtain ⟨_, hargs⟩ := Json.exists_of_required hargs
    refine ⟨StmtId.offset_lt_of_decode? hsite, fun a ha => ?_⟩
    obtain ⟨_, ha⟩ := Json.exists_of_mem_list? hargs ha
    obtain ⟨k, hk⟩ := LoadArg.exists_of_decodeWith? ha
    exact hread k _ hk
  · cases h

/-! ### Analyses -/

theorem Finding.represents {f : Finding} (h : f.call.Canonical) :
  Represents Finding.decode? f.encode f
  := by
  have hentry := f.entry.represents
  have hcall := h.represents
  constructor
  · have hrecord : record? members f.encode = some [some f.entry.encode, some f.call.encode] :=
      Json.record?_obj (by decide) [_, _] rfl
    simp [decode?, hrecord, hentry.read_eq, hcall.read_eq]
  · simp [encode, hentry.plain, hcall.plain]

theorem Resolution.represents {r : Resolution} (h : ∀ f ∈ r.findings, f.call.Canonical) :
  Represents Resolution.decode? r.encode r
  := by
  have hmethod := r.method.represents
  have hfindings := represents_list fun f hf => Finding.represents (h f hf)
  constructor
  · have hrecord : record? members r.encode =
        some [some r.method.encode, some (.ofList Finding.encode r.findings)] :=
      Json.record?_obj (by decide) [_, _] rfl
    simp [decode?, hrecord, hmethod.read_eq, hfindings.read_eq]
  · simp [encode, hmethod.plain, hfindings.plain]

theorem Diagnostic.represents {d : Diagnostic} (h : d.call.Canonical) :
  Represents Diagnostic.decode? d.encode d
  := by
  cases d with
  | solverUnavailable c call reason =>
      have hc := c.represents
      have hcall : Represents call? call.encode call := LoadCall.Canonical.represents_call h
      have hplain : (Diagnostic.solverUnavailable c call reason).encode.Plain := by
        simp [encode, hc.plain, hcall.plain]
      refine ⟨?_, hplain⟩
      have hrecord : record? solverUnavailableMembers
          (Diagnostic.solverUnavailable c call reason).encode =
          some [some (.str "solver_unavailable"), some c.encode, some call.encode,
            some (.str reason)] :=
        Json.record?_obj (by decide) [_, _, _, _] rfl
      have hkind : kind? (Diagnostic.solverUnavailable c call reason).encode =
          some "solver_unavailable" := rfl
      simp [decode?, hplain.withoutEmptyContents_eq, hkind, hrecord, hc.read_eq, hcall.read_eq,
        Json.string?]
  | unresolved c call =>
      have hc := c.represents
      have hcall : Represents call? call.encode call := LoadCall.Canonical.represents_call h
      have hplain : (Diagnostic.unresolved c call).encode.Plain := by
        simp [encode, hc.plain, hcall.plain]
      refine ⟨?_, hplain⟩
      have hrecord : record? unresolvedMembers (Diagnostic.unresolved c call).encode =
          some [some (.str "unresolved"), some c.encode, some call.encode] :=
        Json.record?_obj (by decide) [_, _, _] rfl
      have hkind : kind? (Diagnostic.unresolved c call).encode = some "unresolved" := rfl
      simp [decode?, hplain.withoutEmptyContents_eq, hkind, hrecord, hc.read_eq, hcall.read_eq]

theorem Finding.canonical_of_decode? {j : Json} {f : Finding} (h : Finding.decode? j = some f) :
  f.call.Canonical
  := by
  unfold Finding.decode? at h
  split at h
  · simp only [Option.bind_eq_bind, Option.bind_eq_some_iff, Option.pure_def,
      Option.some.injEq] at h
    obtain ⟨entry, -, call, hcall, rfl⟩ := h
    obtain ⟨_, hcall⟩ := Json.exists_of_required hcall
    exact LoadCall.canonical_of_decodeWith? (fun _ _ => Value.canonical_of_decodeWithin) hcall
  · cases h

theorem Resolution.canonical_of_decode? {j : Json} {r : Resolution}
    (h : Resolution.decode? j = some r) {f : Finding} (hf : f ∈ r.findings) :
  f.call.Canonical
  := by
  unfold Resolution.decode? at h
  split at h
  · simp only [Option.bind_eq_bind, Option.bind_eq_some_iff, Option.pure_def,
      Option.some.injEq] at h
    obtain ⟨method, -, findings, hfindings, rfl⟩ := h
    obtain ⟨_, hfindings⟩ := Json.exists_of_required hfindings
    obtain ⟨_, hf⟩ := Json.exists_of_mem_list? hfindings hf
    exact Finding.canonical_of_decode? hf
  · cases h

theorem Diagnostic.canonical_of_decode? {j : Json} {d : Diagnostic}
    (h : Diagnostic.decode? j = some d) :
  d.call.Canonical
  := by
  unfold Diagnostic.decode? at h
  dsimp only at h
  split at h
  · split at h
    · simp only [Option.bind_eq_bind, Option.bind_eq_some_iff, Option.pure_def,
        Option.some.injEq] at h
      obtain ⟨c, -, call, hcall, reason, -, rfl⟩ := h
      obtain ⟨_, hcall⟩ := Json.exists_of_required hcall
      exact LoadCall.canonical_of_decodeWith? (fun _ _ => Value.canonical_of_decodeWithin) hcall
    · cases h
  · split at h
    · simp only [Option.bind_eq_bind, Option.bind_eq_some_iff, Option.pure_def,
        Option.some.injEq] at h
      obtain ⟨c, -, call, hcall, rfl⟩ := h
      obtain ⟨_, hcall⟩ := Json.exists_of_required hcall
      exact LoadCall.canonical_of_decodeWith? (fun _ _ => Value.canonical_of_decodeWithin) hcall
    · cases h
  · cases h

namespace ClassAnalysis

/-- All calls of the analysis are canonical. -/
def Canonical (a : ClassAnalysis) : Prop :=
  (∀ r ∈ a.resolutions, ∀ f ∈ r.findings, f.call.Canonical) ∧
    ∀ d ∈ a.diagnostics, d.call.Canonical

theorem represents_obj {i j k l : Json} {c : ClassName} {resolutions : List Resolution}
    {diagnostics : List Diagnostic} {counters : Counters} (hc : Represents ClassName.decode? i c)
    (hresolutions : Represents (Json.list? Resolution.decode?) j resolutions)
    (hdiagnostics : Represents (Json.list? Diagnostic.decode?) k diagnostics)
    (hcounters : Represents Counters.decode? l counters) :
  Represents decode?
    (.obj [("class", i), ("resolutions", j), ("diagnostics", k), ("counters", l)])
    ⟨c, resolutions, diagnostics, counters⟩
  := by
  constructor
  · have hrecord : record? members
        (.obj [("class", i), ("resolutions", j), ("diagnostics", k), ("counters", l)]) =
        some [some i, some j, some k, some l] :=
      Json.record?_obj (by decide) [_, _, _, _] rfl
    simp [decode?, hrecord, hc.read_eq, hresolutions.read_eq, hdiagnostics.read_eq,
      hcounters.read_eq]
  · simp [hc.plain, hresolutions.plain, hdiagnostics.plain, hcounters.plain]

theorem Canonical.represents {a : ClassAnalysis} (h : a.Canonical) :
  Represents decode? a.encode a
  := by
  apply represents_obj a.cls.represents _ _ a.counters.represents
  · exact represents_list fun r hr => Resolution.represents (h.1 r hr)
  · exact represents_list fun d hd => Diagnostic.represents (h.2 d hd)

/-- Analyses are read as canonical ones. -/
theorem canonical_of_decode? {j : Json} {a : ClassAnalysis} (h : decode? j = some a) :
  a.Canonical
  := by
  unfold decode? at h
  split at h
  · simp only [Option.bind_eq_bind, Option.bind_eq_some_iff, Option.pure_def,
      Option.some.injEq] at h
    obtain ⟨c, -, resolutions, hresolutions, diagnostics, hdiagnostics, counters, -, rfl⟩ := h
    obtain ⟨_, hresolutions⟩ := Json.exists_of_required hresolutions
    obtain ⟨_, hdiagnostics⟩ := Json.exists_of_required hdiagnostics
    constructor
    · intro r hr f hf
      obtain ⟨_, hr⟩ := Json.exists_of_mem_list? hresolutions hr
      exact Resolution.canonical_of_decode? hr hf
    · intro d hd
      obtain ⟨_, hd⟩ := Json.exists_of_mem_list? hdiagnostics hd
      exact Diagnostic.canonical_of_decode? hd
  · cases h

/-- Values and analyses are decoded from their forms exactly if they are canonical.  An object is
decoded from any list of pairs that can be read: the last pair of a field decides, and in the form
of the object each field has one pair, in ascending order. -/
theorem decode?_encode_iff_canonical :
  (∀ v : Value, Value.decode? v.encode = some v ↔ v.Canonical) ∧
  (∀ (c : ClassName) (items : List Json) (entries : List (FieldSig × Value)),
    items.mapM (Value.decodePair? Value.decode?) = some entries →
      ∃ fields, Value.decode? (Value.objectForm c items) = some (.object c (some fields)) ∧
        (∀ f, Sorted.lookup f fields = Sorted.lookup f entries.reverse) ∧
        (Value.object c (some fields)).encode =
          Value.objectForm c (fields.map Value.pairForm) ∧
        Sorted.Ascending fields ∧ ∀ f, f ∈ fields.map (·.1) ↔ f ∈ entries.map (·.1)) ∧
  ∀ a : ClassAnalysis, decode? a.encode = some a ↔ a.Canonical
  := by
  refine ⟨fun v => ?_, fun c items entries hentries => ?_, fun a => ?_⟩
  · exact ⟨Value.canonical_of_decodeWithin, fun h => h.represents_decode?.read_eq⟩
  · use Value.fieldsOfList entries
    refine ⟨?_, fun f => Value.lookup_fieldsOfList f entries, Value.encode_object _ _,
      Value.ascending_fieldsOfList entries, fun f => Value.mem_map_fst_fieldsOfList⟩
    rw [Value.decode?_objectForm, hentries, Option.map_some]
  · exact ⟨canonical_of_decode?, fun h => h.represents.read_eq⟩

end ClassAnalysis

namespace Recorded

/-! An object with a field of an object whose fields were written and are none, and pairs in which
a field comes twice. -/

def owner : ClassName := ⟨"a.Box"⟩
def first : FieldSig := ⟨owner, "first", .string⟩
def second : FieldSig := ⟨owner, "second", .object owner⟩
def box : Value := .object owner (some [(first, .unknown), (second, .object owner (some []))])

def call : LoadCall := ⟨⟨⟨owner, "open", [.cls], .void⟩, 4294967295⟩,
  ⟨.static, ⟨.serviceLoader, "load", [.cls], .object .serviceLoader⟩, none,
    [.var ⟨"c", .cls⟩]⟩, [⟨.var ⟨"c", .cls⟩, .cls, box⟩]⟩

def analysis : ClassAnalysis where
  cls := owner
  resolutions := [⟨⟨owner, "open", [.cls], .void⟩, [⟨⟨owner, "main", [], .void⟩, call⟩]⟩]
  diagnostics := [.unresolved owner call, .solverUnavailable owner call "no body"]
  counters := ⟨0, 1, 1, 18446744073709551615⟩

def entries : List (FieldSig × Value) :=
  [(second, .null), (first, .str "x"), (second, .object owner none)]

theorem canonical_analysis :
  analysis.Canonical
  := by
  have hbox : box.Canonical := by
    apply Value.Canonical.object
    · exact List.pairwise_pair.2 (by decide)
    · simp [Value.Canonical.unknown, Value.Canonical.object _ Sorted.ascending_nil]
  have hcall : call.Canonical := ⟨by decide, by simp [call, hbox]⟩
  exact ⟨by simp [analysis, hcall], by simp [analysis, Diagnostic.call, hcall]⟩

theorem mapM_entries :
  (entries.map Value.pairForm).mapM (Value.decodePair? Value.decode?) = some entries
  := by
  have hcanonical : ∀ e ∈ entries, e.2.Canonical := by
    simp [entries, Value.Canonical.null, Value.Canonical.str, Value.Canonical.bare]
  exact (represents_list fun e he =>
    Value.represents_pair (hcanonical e he).represents_decode?).read_eq

theorem decode?_analysis :
  analysis.Canonical ∧ ClassAnalysis.decode? analysis.encode = some analysis ∧
    ∃ fields, Value.decode? (Value.objectForm owner (entries.map Value.pairForm)) =
        some (.object owner (some fields)) ∧
      Sorted.lookup second fields = some (.object owner none)
  := by
  obtain ⟨-, hobject, hanalysis⟩ := ClassAnalysis.decode?_encode_iff_canonical
  obtain ⟨fields, hread, hlookup, -⟩ := hobject owner _ entries mapM_entries
  exact ⟨canonical_analysis, (hanalysis analysis).2 canonical_analysis, fields, hread,
    (hlookup second).trans rfl⟩

end Recorded

end ServiceFlow
