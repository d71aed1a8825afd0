-- SUMMARY: All diagnostics of a compilation point into the source, and parse errors are in order.
import TypedTemplate.Proofs.Compile.Region
import TypedTemplate.Proofs.Compile.Unit
import TypedTemplate.Proofs.Grammar.Recovery

/-!
# Places of diagnostics

Every diagnostic is about something that was read. The parser keeps its errors and its trees
in the unit, the checks of the declarations and the compiler of the bodies report at spans of
the tree, and so a diagnostic of any stage names a place in the source.
-/

namespace TypedTemplate

/-! ## Spans of signatures -/

instance : Spanned Diagnostic := ⟨fun d => [d.span]⟩
instance : Spanned String := ⟨fun _ => []⟩
instance : Spanned DeclaredType := ⟨fun _ => []⟩
instance : Spanned Signature := ⟨fun s => Spanned.spans s.decl⟩
instance : Spanned TypeSignature := ⟨fun t => Spanned.spans t.functions⟩

variable {R : Region}

namespace Region

@[simp] theorem holds_diagnostic (d : Diagnostic) : R.Holds d ↔ R d.span.place :=
  List.forall_mem_singleton

@[simp] theorem holds_string (s : String) : R.Holds s := nofun

@[simp] theorem holds_declaredType (d : DeclaredType) : R.Holds d := nofun

@[simp] theorem holds_signature (s : Signature) : R.Holds s ↔ R.Holds s.decl := Iff.rfl

@[simp] theorem holds_typeSignature (t : TypeSignature) : R.Holds t ↔ R.Holds t.functions := Iff.rfl

end Region

/-! ## Declarations -/

namespace Check

variable {α β : Type} [Spanned α] [Spanned β] {r : Registry} {uses : List String}

/-- The check adds diagnostics in the region only, and its result lies there. -/
def LiesIn (m : Check α) (R : Region) : Prop :=
  ∀ ds : Diagnostics, R.Holds ds → R.Holds (m.run ds).1 ∧ R.Holds (m.run ds).2

theorem liesIn_pure {a : α} (ha : R.Holds a) : LiesIn (pure a : Check α) R := fun _ hds => ⟨ha, hds⟩

theorem LiesIn.bind {m : Check α} {next : α → Check β} (hm : m.LiesIn R)
    (hnext : ∀ a, R.Holds a → (next a).LiesIn R) : LiesIn (m >>= next) R := by
  intro ds hds
  obtain ⟨ha, hds'⟩ := hm ds hds
  exact hnext _ ha _ hds'

theorem liesIn_report {e : CompilationError} (h : R e.span.place) : (report e).LiesIn R :=
  fun _ hds => ⟨nofun, .cons ((Region.holds_diagnostic _).2 h) hds⟩

theorem LiesIn.collect {m : Check α} (hm : m.LiesIn R) : R.Holds m.collect := by
  obtain ⟨ha, hds⟩ := hm [] nofun
  exact (Region.holds_pair _ _).2 ⟨ha, hds.reverse⟩

theorem liesIn_distinct {name : α → Ident} {visit : α → Check β}
    (hname : ∀ a, R.Holds a → R (name a).span.place)
    (hvisit : ∀ a, R.Holds a → (visit a).LiesIn R) {as : List α} (has : R.Holds as)
    (seen : List String) : (distinct name visit seen as).LiesIn R := by
  induction as generalizing seen with
  | nil => exact liesIn_pure nofun
  | cons a as ih =>
    unfold distinct
    dsimp only
    -- a name that came before is reported, and its item is not visited
    split
    · exact (liesIn_report (hname a has.head)).bind fun _ _ => ih has.tail seen
    · exact (hvisit a has.head).bind fun b hb => (ih has.tail _).bind fun bs hbs =>
        liesIn_pure (.cons hb hbs)

/-- A type that is unknown is reported where it is named. -/
theorem span_of_resolve {t : TypeRef} {e : CompilationError} (h : resolve r uses t = .error e) :
    e.span = t.span := by
  unfold resolve at h
  dsimp only at h
  repeat' split at h
  all_goals cases h <;> rfl

theorem liesIn_declared {t : TypeRef} (ht : R.Holds t) : (declared r uses t).LiesIn R := by
  unfold declared
  split
  · rename_i e he
    have hspan : R e.span.place := span_of_resolve he ▸ ht.span_typeRef
    exact (liesIn_report hspan).bind fun _ _ => liesIn_pure (by simp)
  · split
    · exact liesIn_pure (by simp)
    · exact (liesIn_report ht.span_typeRef).bind fun _ _ => liesIn_pure (by simp)

theorem liesIn_declaredAll {ts : List TypeRef} (hts : R.Holds ts) :
    (declaredAll r uses ts).LiesIn R := by
  induction ts with
  | nil => exact liesIn_pure nofun
  | cons t ts ih =>
    exact (liesIn_declared hts.head).bind fun _ _ => (ih hts.tail).bind fun _ _ =>
      liesIn_pure (by simp)

theorem liesIn_signature {f : FunctionDecl} (hf : R.Holds f) : (signature r uses f).LiesIn R := by
  obtain ⟨-, -, hparams, hresult, -⟩ := (Region.holds_functionDecl f).1 hf
  have htypes : R.Holds (f.params.map (·.type)) := by
    refine (Region.holds_list _).2 fun t ht => ?_
    obtain ⟨p, hp, rfl⟩ := List.mem_map.1 ht
    exact ((Region.holds_param p).1 (hparams.mem hp)).2.2
  refine (liesIn_declaredAll htypes).bind fun _ _ => (liesIn_declared hresult).bind fun _ _ => ?_
  split
  · exact liesIn_pure (by simpa using hf)
  · exact liesIn_pure (by simp)

theorem liesIn_typeSignature (m : ModuleDecl) {t : TypeDecl} (ht : R.Holds t) :
    (typeSignature r uses m t).LiesIn R := by
  obtain ⟨-, -, hfunctions⟩ := (Region.holds_typeDecl t).1 ht
  have hname (f : FunctionDecl) (hf : R.Holds f) : R f.name.span.place :=
    ((Region.holds_functionDecl f).1 hf).2.1
  refine (liesIn_distinct hname (fun _ => liesIn_signature) hfunctions []).bind fun fs hfs => ?_
  refine liesIn_pure ((Region.holds_typeSignature _).2 ((Region.holds_list _).2 fun s hs => ?_))
  obtain ⟨f, hf, hfs'⟩ := List.mem_filterMap.1 hs
  exact (Region.holds_option f).1 (hfs.mem hf) s hfs'

theorem liesIn_moduleSignatures {m : ModuleDecl} (hm : R.Holds m) :
    (moduleSignatures r uses m).LiesIn R := by
  have hname (t : TypeDecl) (ht : R.Holds t) : R t.name.span.place :=
    ((Region.holds_typeDecl t).1 ht).2.1
  exact liesIn_distinct hname (fun _ => liesIn_typeSignature m)
    ((Region.holds_moduleDecl m).1 hm).2.2 []

theorem liesIn_edition {e? : Option Edition} (h : R.Holds e?) : (edition e?).LiesIn R := by
  unfold edition
  split
  · split
    · exact liesIn_pure nofun
    · exact liesIn_report ((Region.holds_edition _).1 ((Region.holds_option _).1 h _ rfl))
  · exact liesIn_pure nofun

theorem liesIn_namespacesOnto {ds : List UseDecl} (hds : R.Holds ds) (uses : List String) :
    (namespacesOnto r uses ds).LiesIn R := by
  induction ds generalizing uses with
  | nil => exact liesIn_pure (by simp)
  | cons d ds ih =>
    have hpath := ((Region.holds_useDecl d).1 hds.head).2
    unfold namespacesOnto
    dsimp only
    split
    · exact ih hds.tail _
    · exact (liesIn_report ((Region.holds_path _).1 hpath).1).bind fun _ _ => ih hds.tail uses

theorem liesIn_unit {u : SourceUnit} (hu : R.Holds u) : (unit r u).LiesIn R := by
  obtain ⟨-, hedition, huses, hmodules⟩ := (Region.holds_sourceUnit u).1 hu
  have hname (m : ModuleDecl) (hm : R.Holds m) : R m.name.span.place :=
    ((Region.holds_moduleDecl m).1 hm).2.1
  refine (liesIn_edition hedition).bind fun _ _ => ?_
  refine (liesIn_namespacesOnto huses []).bind fun uses _ => ?_
  have htypes : (distinct (·.name) (moduleSignatures r uses) [] u.modules).LiesIn R :=
    liesIn_distinct hname (fun _ => liesIn_moduleSignatures) hmodules []
  refine htypes.bind fun ts hts => liesIn_pure ((Region.holds_list _).2 fun t ht => ?_)
  obtain ⟨l, hl, ht⟩ := List.mem_flatten.1 ht
  exact (hts.mem hl).mem ht

end Check

/-! ## Bodies -/

theorem Scope.span_of_declare {s : Scope} {name : String} {t : Ty} {span : Span}
    {e : CompilationError} (h : s.declare name t span = .error e) : e.span = span := by
  unfold declare at h
  repeat' split at h
  all_goals cases h <;> rfl

theorem Scope.holds_ofParams {params : List (Param × DeclaredType)} (hparams : R.Holds params)
    {s : Scope} {ds : Diagnostics} (hds : R.Holds ds) : R.Holds (s.ofParams ds params).2 := by
  induction params generalizing s ds with
  | nil => exact hds
  | cons p rest ih =>
    obtain ⟨p, d⟩ := p
    obtain ⟨hp, -⟩ := (Region.holds_pair p d).1 hparams.head
    unfold ofParams
    split
    · exact ih hparams.tail hds
    · rename_i e he
      have hspan : R e.span.place := span_of_declare he ▸ ((Region.holds_param p).1 hp).2.1
      exact ih hparams.tail (.cons ((Region.holds_diagnostic _).2 hspan) hds)

namespace Body

variable {b : Body} {r : Registry} {o : Options} {declared : Ty}

theorem holds_report (hb : R.Holds b.diagnostics) {e : CompilationError} (he : R e.span.place) :
    R.Holds (b.report e).diagnostics := by
  have hcons : R.Holds (.ofCompilationError e :: b.diagnostics) :=
    .cons ((Region.holds_diagnostic _).2 he) hb
  unfold report
  repeat' split
  all_goals first | exact hb | exact hcons

theorem holds_warnUnreachable (hb : R.Holds b.diagnostics) {s : Stmt} (hs : R.Holds s) :
    R.Holds (b.warnUnreachable s).diagnostics := by
  unfold warnUnreachable
  split
  · exact .cons ((Region.holds_diagnostic _).2 hs.span_stmt) hb
  · exact hb

theorem liesIn_ret (c : Context) (declared : Ty) {value : Expr} (hvalue : R.Holds value)
    (span : Span) :
    (ret c declared value span).LiesIn R :=
  (c.liesIn_infer value hvalue).bind fun _ _ =>
    (Emit.liesIn_lift hvalue.span (by simp) _).bind fun _ _ => Emit.liesIn_instrs _

/-- A statement adds diagnostics that lie in it. -/
theorem holds_step (hb : R.Holds b.diagnostics) {s : Stmt} (hs : R.Holds s) :
    R.Holds (b.step r o declared s).diagnostics := by
  have hwarn := holds_warnUnreachable hb hs
  cases s with
  | letBinding x value span =>
    obtain ⟨-, hx, hvalue⟩ := (Region.holds_letBinding x value span).1 hs
    have hresult := Context.liesIn_infer ⟨r, o, b.scope⟩ value hvalue b.pool
    cases hinfer : Context.infer ⟨r, o, b.scope⟩ value b.pool with
    | mk result code P =>
      rw [hinfer] at hresult
      cases result with
      | error e =>
        rw [step_let_error hinfer]
        refine holds_report ?_ ((Region.holds_compilationError e).1 hresult)
        exact hwarn
      | ok t =>
        cases hdeclare : b.scope.declare x.name t x.span with
        | error e =>
          rw [step_let_undeclared hinfer hdeclare]
          refine holds_report ?_ (Scope.span_of_declare hdeclare ▸ hx)
          exact hwarn
        | ok found =>
          rw [step_let hinfer hdeclare]
          exact hwarn
  | ret value span =>
    obtain ⟨-, hvalue⟩ := (Region.holds_ret value span).1 hs
    have hresult := liesIn_ret ⟨r, o, b.scope⟩ declared hvalue span b.pool
    cases hret : Body.ret ⟨r, o, b.scope⟩ declared value span b.pool with
    | mk result code P =>
      rw [hret] at hresult
      cases result with
      | error e =>
        rw [step_ret_error hret]
        refine holds_report ?_ ((Region.holds_compilationError e).1 hresult)
        exact hwarn
      | ok a =>
        rw [step_ret hret]
        exact hwarn

theorem holds_run (hb : R.Holds b.diagnostics) {stmts : List Stmt} (hstmts : R.Holds stmts) :
    R.Holds (b.run r o declared stmts).diagnostics := by
  induction stmts generalizing b with
  | nil => exact hb
  | cons s ss ih => exact ih (holds_step hb hstmts.head) hstmts.tail

end Body

/-! ## Units -/

section

variable {r : Registry} {o : Options}

theorem Signature.holds_compile {s : Signature} (hs : R.Holds s) {ds : Diagnostics}
    (hds : R.Holds ds) (pool : Pool) : R.Holds (s.compile r o pool ds).2.2 := by
  obtain ⟨-, hname, hparams, -, hblock⟩ := (Region.holds_functionDecl s.decl).1 hs
  have hzip : R.Holds (s.decl.params.zip s.params) :=
    (Region.holds_list _).2 fun p hp =>
      (Region.holds_pair p.1 p.2).2 ⟨hparams.mem (List.of_mem_zip hp).1, by simp⟩
  have hrun : R.Holds ((s.body pool ds).run r o s.result.type s.decl.body.stmts).diagnostics :=
    Body.holds_run (Scope.holds_ofParams hzip hds) ((Region.holds_block _).1 hblock).2
  rw [compile_eq]
  dsimp only
  split
  · exact hrun
  · exact .cons ((Region.holds_diagnostic _).2 hname) hrun

theorem Compilation.holds_after {st : Pool × Diagnostics} (hst : R.Holds st.2)
    {ss : List Signature} (hss : R.Holds ss) : R.Holds (after r o st ss).2 := by
  induction ss generalizing st with
  | nil => exact hst
  | cons s ss ih => exact ih (s.holds_compile hss.head hst st.1) hss.tail

theorem SourceUnit.holds_final {u : SourceUnit} (hu : R.Holds u) : R.Holds (u.final r o).2 := by
  obtain ⟨htypes, hds⟩ := (Region.holds_pair _ _).1 (Check.liesIn_unit (r := r) hu).collect
  refine Compilation.holds_after hds.reverse ((Region.holds_list _).2 fun s hs => ?_)
  obtain ⟨t, ht, hs⟩ := List.mem_flatMap.1 hs
  exact ((Region.holds_typeSignature t).1 (htypes.mem ht)).mem hs

end

/-- All that a compilation reports: the errors, or the warnings of an artifact. -/
def reported : Except Diagnostics Artifact → Diagnostics
  | .ok a     => a.warnings
  | .error ds => ds

theorem SourceUnit.holds_reported {u : SourceUnit} (hu : R.Holds u) (r : Registry) (o : Options) :
    R.Holds (reported (u.compile r o)) := by
  have hfinal : R.Holds (u.final r o).2.reverse := (holds_final hu).reverse
  rw [compile_eq]
  split
  · exact hfinal
  · exact hfinal

/-! ## Order -/

/-- The span starts at the start of the other or before it. -/
def Span.NoLaterThan (a b : Span) : Prop := a.line < b.line ∨ a.line = b.line ∧ a.col ≤ b.col

theorem ParseError.pairwise_inOrder (errors : List ParseError) :
    (inOrder errors).Pairwise fun a b => a.span.NoLaterThan b.span := by
  refine List.Pairwise.sublist (eraseReps_sublist _) ?_
  refine (List.pairwise_mergeSort ?_ ?_ errors).imp fun h => ?_
  · intro a b c hab hbc
    simp only [Bool.or_eq_true, Bool.and_eq_true, decide_eq_true_eq, beq_iff_eq] at hab hbc ⊢
    omega
  · intro a b
    simp only [Bool.or_eq_true, Bool.and_eq_true, decide_eq_true_eq, beq_iff_eq]
    omega
  · simpa [Span.NoLaterThan] using h

theorem SourceUnit.pairwise_parse {text : String} {errors : List ParseError}
    (h : parse text = .error errors) : errors.Pairwise fun a b => a.span.NoLaterThan b.span := by
  unfold parse at h
  dsimp only at h
  split at h
  · cases h
  · cases h
    exact ParseError.pairwise_inOrder _
  · cases h
    exact ParseError.pairwise_inOrder _

/-! ## Compilations -/

/-- Whatever the source, each diagnostic of its compilation is on a line of the source, at one of
the line's bytes or behind the last. Those of a source that cannot be parsed are in order. -/
theorem compile_pointsInto (r : Registry) (o : Options) (source : String) :
    (∀ d ∈ reported (compile r o source), d.span.PointsInto source.toList) ∧
      ∀ errors, SourceUnit.parse source = .error errors → ∃ ds, compile r o source = .error ds ∧
        ds.Pairwise fun a b => a.span.NoLaterThan b.span := by
  have hparse := SourceUnit.holds_parse source
  have hreported : (Region.ofText source.toList).Holds (reported (compile r o source)) := by
    unfold compile
    split
    · rename_i u hu
      rw [hu] at hparse
      exact SourceUnit.holds_reported hparse r o
    · rename_i errors herrors
      rw [herrors] at hparse
      refine (Region.holds_list _).2 fun d hd => ?_
      obtain ⟨e, he, rfl⟩ := List.mem_map.1 hd
      exact (Region.holds_diagnostic _).2 ((Region.holds_parseError e).1 (hparse.mem he))
  refine ⟨fun d hd => ?_, fun errors herrors => ⟨errors.map .ofParseError, ?_, ?_⟩⟩
  · exact Region.pointsInto ((Region.holds_diagnostic d).1 (hreported.mem hd))
  · rw [compile, herrors]
  · exact List.pairwise_map.2 (SourceUnit.pairwise_parse herrors)

/-- A source with an error in a hole of a hole, one behind the hole and one at the end. -/
theorem compile_pointsInto_nested :
    let source :=
      "module M \x7b type T \x7b fn F() -> string \x7b\n" ++
        "  return $\"é\x7b$\"\x7b1 + \x7d\"\x7d\" \x7d\n"
    ∃ errors, SourceUnit.parse source = .error errors ∧
      ∃ ds, compile (.empty #[]) .standard source = .error ds ∧
        (∀ d ∈ ds, d.span.PointsInto source.toList) ∧
          ds.Pairwise fun a b => a.span.NoLaterThan b.span := by
  intro source
  have hchars : source.toList = _ := toList_append_of_eq_ofList rfl rfl
  have hfails : (SourceUnit.parse source).isOk = false := by
    rw [SourceUnit.parse, ← String.length_toList, hchars]
    decide +kernel
  obtain ⟨hpoints, hordered⟩ := compile_pointsInto (.empty #[]) .standard source
  cases hparse : SourceUnit.parse source with
  | ok u =>
    rw [hparse] at hfails
    cases hfails
  | error errors =>
    obtain ⟨ds, hcompile, hpairwise⟩ := hordered errors hparse
    rw [hcompile] at hpoints
    exact ⟨errors, rfl, ds, hcompile, hpoints, hpairwise⟩

end TypedTemplate
