-- SUMMARY: The grammar of units, and units printed back as symbols.
import TypedTemplate.Proofs.Grammar.Phrase
import TypedTemplate.Tree.Unit

/-!
# Symbols

The grammar of units has one nonterminal for each kind of declaration. Its symbols are tokens
without their places and, since the grammar of expressions is a matter of its own, whole
expressions. `DerivesUnit` is derivation in this grammar, with the unit that belongs to it.
Derivation is printing of units whose paths all have a name.
-/

namespace TypedTemplate

inductive Symbol where
  | mark (kind : TokenKind)
  | name (x : String)
  | number (n : Nat)
  /-- An expression without the places of its parts. -/
  | expr (e : Expr)

/-! ## The grammar -/

section

variable {α : Type}

/-- Any number of phrases, one behind the other. -/
inductive DerivesMany (D : List Symbol → α → Prop) : List Symbol → List α → Prop where
  | nil : DerivesMany D [] []
  | cons {us vs : List Symbol} {a : α} {as : List α} :
      D us a → DerivesMany D vs as → DerivesMany D (us ++ vs) (a :: as)

/-- Phrases with commas between them, one at least. -/
inductive DerivesList (D : List Symbol → α → Prop) : List Symbol → List α → Prop where
  | one {ss : List Symbol} {a : α} : D ss a → DerivesList D ss [a]
  | more {us vs : List Symbol} {a b : α} {as : List α} :
      D us a → DerivesList D vs (b :: as) →
        DerivesList D (us ++ .mark .comma :: vs) (a :: b :: as)

end

inductive DerivesPath : List Symbol → Path → Prop where
  | one {x : String} : DerivesPath [.name x] ⟨[⟨x, .nowhere⟩], .nowhere⟩
  | more {ss : List Symbol} {p : Path} {x : String} :
      DerivesPath ss p →
        DerivesPath (.name x :: .mark .colonColon :: ss) ⟨⟨x, .nowhere⟩ :: p.segments, .nowhere⟩

mutual

inductive DerivesType : List Symbol → TypeRef → Prop where
  | path {ss : List Symbol} {p : Path} : DerivesPath ss p → DerivesType ss (.mk p [] .nowhere)
  | applied {us vs : List Symbol} {p : Path} {args : List TypeRef} :
      DerivesPath us p → DerivesTypes vs args →
        DerivesType (us ++ .mark .less :: vs ++ [.mark .greater]) (.mk p args .nowhere)

/-- Types with commas between them, one at least. -/
inductive DerivesTypes : List Symbol → List TypeRef → Prop where
  | one {ss : List Symbol} {t : TypeRef} : DerivesType ss t → DerivesTypes ss [t]
  | more {us vs : List Symbol} {t t' : TypeRef} {ts : List TypeRef} :
      DerivesType us t → DerivesTypes vs (t' :: ts) →
        DerivesTypes (us ++ .mark .comma :: vs) (t :: t' :: ts)

end

inductive DerivesStmt : List Symbol → Stmt → Prop where
  | letBinding {x : String} {e : Expr} : e.bare = e →
      DerivesStmt [.mark .letWord, .name x, .mark .equal, .expr e, .mark .semicolon]
        (.letBinding ⟨x, .nowhere⟩ e .nowhere)
  | ret {e : Expr} : e.bare = e →
      DerivesStmt [.mark .returnWord, .expr e, .mark .semicolon] (.ret e .nowhere)

inductive DerivesBlock : List Symbol → Block → Prop where
  | mk {ss : List Symbol} {stmts : List Stmt} : DerivesMany DerivesStmt ss stmts →
      DerivesBlock (.mark .leftBrace :: ss ++ [.mark .rightBrace]) ⟨stmts, .nowhere⟩

inductive DerivesParam : List Symbol → Param → Prop where
  | mk {ss : List Symbol} {x : String} {t : TypeRef} : DerivesType ss t →
      DerivesParam (.name x :: .mark .colon :: ss) ⟨⟨x, .nowhere⟩, t, .nowhere⟩

inductive DerivesParams : List Symbol → List Param → Prop where
  | none : DerivesParams [] []
  | some {ss : List Symbol} {ps : List Param} : DerivesList DerivesParam ss ps → DerivesParams ss ps

inductive DerivesFunction : List Symbol → FunctionDecl → Prop where
  | mk {ps ts bs : List Symbol} {x : String} {params : List Param} {t : TypeRef} {b : Block} :
      DerivesParams ps params → DerivesType ts t → DerivesBlock bs b →
        DerivesFunction
          (.mark .fnWord :: .name x :: .mark .leftParen :: ps ++
            .mark .rightParen :: .mark .arrow :: ts ++ bs)
          ⟨⟨x, .nowhere⟩, params, t, b, .nowhere⟩

inductive DerivesTypeDecl : List Symbol → TypeDecl → Prop where
  | mk {ss : List Symbol} {x : String} {fs : List FunctionDecl} :
      DerivesMany DerivesFunction ss fs →
      DerivesTypeDecl
        (.mark .typeWord :: .name x :: .mark .leftBrace :: ss ++ [.mark .rightBrace])
        ⟨⟨x, .nowhere⟩, fs, .nowhere⟩

inductive DerivesModule : List Symbol → ModuleDecl → Prop where
  | mk {ss : List Symbol} {x : String} {ts : List TypeDecl} : DerivesMany DerivesTypeDecl ss ts →
      DerivesModule
        (.mark .moduleWord :: .name x :: .mark .leftBrace :: ss ++ [.mark .rightBrace])
        ⟨⟨x, .nowhere⟩, ts, .nowhere⟩

inductive DerivesUse : List Symbol → UseDecl → Prop where
  | mk {ss : List Symbol} {p : Path} : DerivesPath ss p →
      DerivesUse (.mark .useWord :: ss ++ [.mark .semicolon]) ⟨p, .nowhere⟩

inductive DerivesEdition : List Symbol → Option Edition → Prop where
  | none : DerivesEdition [] none
  | some {n : Nat} :
      DerivesEdition
        [.mark .hash, .mark .bang, .mark .leftBracket, .name "edition", .mark .equal, .number n,
          .mark .rightBracket]
        (some ⟨n, .nowhere⟩)

/-- The symbols derive from the start of the grammar, and the unit is that of the derivation. Its
spans are left open, so they are all the same. -/
inductive DerivesUnit : List Symbol → SourceUnit → Prop where
  | mk {es us ms : List Symbol} {e? : Option Edition} {uses : List UseDecl}
      {modules : List ModuleDecl} :
      DerivesEdition es e? → DerivesMany DerivesUse us uses → DerivesMany DerivesModule ms modules →
        DerivesUnit (es ++ us ++ ms) ⟨e?, uses, modules, .nowhere⟩

/-! ## Units without places -/

def Path.bare (p : Path) : Path := ⟨p.segments.map fun x => ⟨x.name, .nowhere⟩, .nowhere⟩

mutual

def TypeRef.bare : TypeRef → TypeRef
  | .mk p args _ => .mk p.bare (TypeRef.bareAll args) .nowhere

def TypeRef.bareAll : List TypeRef → List TypeRef
  | []      => []
  | t :: ts => t.bare :: TypeRef.bareAll ts

end

def Stmt.bare : Stmt → Stmt
  | .letBinding x e _ => .letBinding ⟨x.name, .nowhere⟩ e.bare .nowhere
  | .ret e _          => .ret e.bare .nowhere

def Block.bare (b : Block) : Block := ⟨b.stmts.map Stmt.bare, .nowhere⟩

def Param.bare (p : Param) : Param := ⟨⟨p.name.name, .nowhere⟩, p.type.bare, .nowhere⟩

def FunctionDecl.bare (f : FunctionDecl) : FunctionDecl :=
  ⟨⟨f.name.name, .nowhere⟩, f.params.map Param.bare, f.returnType.bare, f.body.bare, .nowhere⟩

def TypeDecl.bare (t : TypeDecl) : TypeDecl :=
  ⟨⟨t.name.name, .nowhere⟩, t.functions.map FunctionDecl.bare, .nowhere⟩

def ModuleDecl.bare (m : ModuleDecl) : ModuleDecl :=
  ⟨⟨m.name.name, .nowhere⟩, m.types.map TypeDecl.bare, .nowhere⟩

def UseDecl.bare (u : UseDecl) : UseDecl := ⟨u.path.bare, .nowhere⟩

def Edition.bare (e : Edition) : Edition := ⟨e.version, .nowhere⟩

/-- A unit without the places of its parts. -/
def SourceUnit.bare (u : SourceUnit) : SourceUnit :=
  ⟨u.edition.map Edition.bare, u.uses.map UseDecl.bare, u.modules.map ModuleDecl.bare, .nowhere⟩

/-! ## Printing -/

def Path.symbols (p : Path) : List Symbol :=
  [Symbol.mark .colonColon].intercalate (p.segments.map fun x => [.name x.name])

mutual

def TypeRef.symbols : TypeRef → List Symbol
  | .mk p [] _        => p.symbols
  | .mk p (t :: ts) _ =>
    p.symbols ++ .mark .less :: TypeRef.listSymbols (t :: ts) ++ [.mark .greater]

/-- The symbols of types, with commas between them. -/
def TypeRef.listSymbols : List TypeRef → List Symbol
  | []            => []
  | [t]           => t.symbols
  | t :: t' :: ts => t.symbols ++ .mark .comma :: TypeRef.listSymbols (t' :: ts)

end

def Stmt.symbols : Stmt → List Symbol
  | .letBinding x e _ =>
    [.mark .letWord, .name x.name, .mark .equal, .expr e.bare, .mark .semicolon]
  | .ret e _          => [.mark .returnWord, .expr e.bare, .mark .semicolon]

def Block.symbols (b : Block) : List Symbol :=
  .mark .leftBrace :: b.stmts.flatMap Stmt.symbols ++ [.mark .rightBrace]

def Param.symbols (p : Param) : List Symbol := .name p.name.name :: .mark .colon :: p.type.symbols

def FunctionDecl.symbols (f : FunctionDecl) : List Symbol :=
  .mark .fnWord :: .name f.name.name :: .mark .leftParen ::
      [Symbol.mark .comma].intercalate (f.params.map Param.symbols) ++
    .mark .rightParen :: .mark .arrow :: f.returnType.symbols ++ f.body.symbols

def TypeDecl.symbols (t : TypeDecl) : List Symbol :=
  .mark .typeWord :: .name t.name.name :: .mark .leftBrace ::
    t.functions.flatMap FunctionDecl.symbols ++ [.mark .rightBrace]

def ModuleDecl.symbols (m : ModuleDecl) : List Symbol :=
  .mark .moduleWord :: .name m.name.name :: .mark .leftBrace ::
    m.types.flatMap TypeDecl.symbols ++ [.mark .rightBrace]

def UseDecl.symbols (u : UseDecl) : List Symbol :=
  .mark .useWord :: u.path.symbols ++ [.mark .semicolon]

def Edition.symbols (e : Edition) : List Symbol :=
  [.mark .hash, .mark .bang, .mark .leftBracket, .name "edition", .mark .equal, .number e.version,
    .mark .rightBracket]

def SourceUnit.symbols (u : SourceUnit) : List Symbol :=
  (u.edition.map Edition.symbols).getD [] ++ u.uses.flatMap UseDecl.symbols ++
    u.modules.flatMap ModuleDecl.symbols

/-! ## Names in paths -/

def Path.Named (p : Path) : Prop := p.segments ≠ []

mutual

def TypeRef.Named : TypeRef → Prop
  | .mk p args _ => p.Named ∧ TypeRef.AllNamed args

def TypeRef.AllNamed : List TypeRef → Prop
  | []      => True
  | t :: ts => t.Named ∧ TypeRef.AllNamed ts

end

def FunctionDecl.Named (f : FunctionDecl) : Prop :=
  (∀ p ∈ f.params, p.type.Named) ∧ f.returnType.Named

def TypeDecl.Named (t : TypeDecl) : Prop := ∀ f ∈ t.functions, f.Named

def ModuleDecl.Named (m : ModuleDecl) : Prop := ∀ t ∈ m.types, t.Named

/-- No path in the unit is empty. -/
structure SourceUnit.Named (u : SourceUnit) : Prop where
  uses : ∀ d ∈ u.uses, d.path.Named
  modules : ∀ m ∈ u.modules, m.Named

/-! ## Derivations are printings -/

section

variable {α : Type} {D : List Symbol → α → Prop} {print : α → List Symbol} {bare : α → α}
  {P : α → Prop} {ss : List Symbol} {as : List α}

theorem DerivesMany.printed (hD : ∀ {ss a}, D ss a → ss = print a ∧ bare a = a ∧ P a)
    (h : DerivesMany D ss as) : ss = as.flatMap print ∧ as.map bare = as ∧ ∀ a ∈ as, P a := by
  induction h with
  | nil => simp
  | cons ha _ ih =>
    obtain ⟨rfl, hbare, hP⟩ := hD ha
    obtain ⟨rfl, hbares, hPs⟩ := ih
    exact ⟨rfl, by simp [hbare, hbares], List.forall_mem_cons.2 ⟨hP, hPs⟩⟩

theorem DerivesMany.of_forall (h : ∀ a ∈ as, D (print a) (bare a)) :
    DerivesMany D (as.flatMap print) (as.map bare) := by
  induction as with
  | nil => exact .nil
  | cons a as ih =>
    obtain ⟨ha, has⟩ := List.forall_mem_cons.1 h
    exact .cons ha (ih has)

theorem DerivesList.printed (hD : ∀ {ss a}, D ss a → ss = print a ∧ bare a = a ∧ P a)
    (h : DerivesList D ss as) :
    ss = [Symbol.mark .comma].intercalate (as.map print) ∧ as.map bare = as ∧ ∀ a ∈ as, P a := by
  induction h with
  | one ha =>
    obtain ⟨rfl, hbare, hP⟩ := hD ha
    simp [hbare, hP]
  | more ha _ ih =>
    obtain ⟨rfl, hbare, hP⟩ := hD ha
    obtain ⟨rfl, hbares, hPs⟩ := ih
    refine ⟨?_, by rw [List.map_cons, hbare, hbares], List.forall_mem_cons.2 ⟨hP, hPs⟩⟩
    simp [List.intercalate_cons_cons]

theorem DerivesList.of_forall {a : α} (h : ∀ b ∈ a :: as, D (print b) (bare b)) :
    DerivesList D ([Symbol.mark .comma].intercalate ((a :: as).map print))
      ((a :: as).map bare) := by
  induction as generalizing a with
  | nil => simpa using DerivesList.one (h a (by simp))
  | cons b as ih =>
    obtain ⟨ha, has⟩ := List.forall_mem_cons.1 h
    rw [List.map_cons, List.map_cons, List.intercalate_cons_cons, List.append_assoc]
    exact .more ha (ih has)

end

mutual

theorem Expr.bare_bare (e : Expr) : e.bare.bare = e.bare := by
  cases e with
  | literal value span => rfl
  | name x => rfl
  | member object field span => simp [Expr.bare, Expr.bare_bare object]
  | call receiver method args span =>
    simp [Expr.bare, Expr.bare_bare receiver, Expr.bareArgs_bareArgs args]
  | unary op e span => simp [Expr.bare, Expr.bare_bare e]
  | binary op left right span => simp [Expr.bare, Expr.bare_bare left, Expr.bare_bare right]
  | ternary e t f span => simp [Expr.bare, Expr.bare_bare e, Expr.bare_bare t, Expr.bare_bare f]
  | interpolated segments span => simp [Expr.bare, Segment.bareAll_bareAll segments]
  | paren e span => simp [Expr.bare, Expr.bare_bare e]

theorem Expr.bareArgs_bareArgs (args : List Expr) :
    Expr.bareArgs (Expr.bareArgs args) = Expr.bareArgs args := by
  cases args with
  | nil => rfl
  | cons e es => simp [Expr.bareArgs, Expr.bare_bare e, Expr.bareArgs_bareArgs es]

theorem Segment.bare_bare (s : Segment) : s.bare.bare = s.bare := by
  cases s with
  | text s => rfl
  | hole e format span =>
    simp only [Segment.bare, Expr.bare_bare e, Option.map_map]
    rfl

theorem Segment.bareAll_bareAll (ss : List Segment) :
    Segment.bareAll (Segment.bareAll ss) = Segment.bareAll ss := by
  cases ss with
  | nil => rfl
  | cons s ss => simp [Segment.bareAll, Segment.bare_bare s, Segment.bareAll_bareAll ss]

end

section

variable {ss : List Symbol}

theorem DerivesPath.printed {p : Path} (h : DerivesPath ss p) :
    ss = p.symbols ∧ p.bare = p ∧ p.Named := by
  induction h with
  | one => simp [Path.symbols, Path.bare, Path.Named]
  | @more ss p x _ ih =>
    obtain ⟨segments, span⟩ := p
    obtain ⟨rfl, hbare, hnamed⟩ := ih
    obtain rfl : Span.nowhere = span := congrArg Path.span hbare
    obtain ⟨y, ys, rfl⟩ := List.exists_cons_of_ne_nil hnamed
    simp_all [Path.symbols, Path.bare, Path.Named, List.intercalate_cons_cons]

theorem Path.Named.derives {p : Path} (h : p.Named) : DerivesPath p.symbols p.bare := by
  obtain ⟨segments, span⟩ := p
  obtain ⟨x, xs, rfl⟩ := List.exists_cons_of_ne_nil h
  induction xs generalizing x with
  | nil => simpa [Path.symbols, Path.bare] using DerivesPath.one
  | cons y ys ih =>
    have hrest := DerivesPath.more (x := x.name) (ih y (by simp [Path.Named]))
    simpa [Path.symbols, Path.bare, List.intercalate_cons_cons] using hrest

mutual

theorem DerivesType.printed {ss : List Symbol} {t : TypeRef} :
    DerivesType ss t → ss = t.symbols ∧ t.bare = t ∧ t.Named
  | .path hp => by
    obtain ⟨rfl, hbare, hnamed⟩ := hp.printed
    simp [TypeRef.symbols, TypeRef.bare, TypeRef.bareAll, TypeRef.Named, TypeRef.AllNamed, hbare,
      hnamed]
  | .applied hp hargs => by
    obtain ⟨rfl, hbare, hnamed⟩ := hp.printed
    obtain ⟨hne, rfl, hbares, hnameds⟩ := hargs.printed
    obtain ⟨t, ts, rfl⟩ := List.exists_cons_of_ne_nil hne
    simp [TypeRef.symbols, TypeRef.bare, TypeRef.Named, hbare, hbares, hnamed, hnameds]

theorem DerivesTypes.printed {ss : List Symbol} {ts : List TypeRef} :
    DerivesTypes ss ts → ts ≠ [] ∧ ss = TypeRef.listSymbols ts ∧ TypeRef.bareAll ts = ts ∧
      TypeRef.AllNamed ts
  | .one ht => by
    obtain ⟨rfl, hbare, hnamed⟩ := ht.printed
    simp [TypeRef.listSymbols, TypeRef.bareAll, TypeRef.AllNamed, hbare, hnamed]
  | .more ht hts => by
    obtain ⟨rfl, hbare, hnamed⟩ := ht.printed
    obtain ⟨-, rfl, hbares, hnameds⟩ := hts.printed
    exact ⟨by simp, rfl, by rw [TypeRef.bareAll, hbare, hbares], hnamed, hnameds⟩

end

mutual

theorem TypeRef.Named.derives {t : TypeRef} (h : t.Named) : DerivesType t.symbols t.bare := by
  match t with
  | .mk p [] span => exact .path h.1.derives
  | .mk p (t :: ts) span => exact .applied h.1.derives (TypeRef.AllNamed.derives h.2 (by simp))

theorem TypeRef.AllNamed.derives {ts : List TypeRef} (h : TypeRef.AllNamed ts) (hne : ts ≠ []) :
    DerivesTypes (TypeRef.listSymbols ts) (TypeRef.bareAll ts) := by
  match ts with
  | [] => exact absurd rfl hne
  | [t] => exact .one h.1.derives
  | t :: t' :: ts => exact .more h.1.derives (TypeRef.AllNamed.derives h.2 (by simp))

end

theorem DerivesStmt.printed {s : Stmt} (h : DerivesStmt ss s) : ss = s.symbols ∧ s.bare = s := by
  cases h <;> simp_all [Stmt.symbols, Stmt.bare]

theorem Stmt.derives (s : Stmt) : DerivesStmt s.symbols s.bare := by
  cases s with
  | letBinding x e span => exact .letBinding e.bare_bare
  | ret e span => exact .ret e.bare_bare

theorem DerivesBlock.printed {b : Block} (h : DerivesBlock ss b) : ss = b.symbols ∧ b.bare = b := by
  obtain ⟨hstmts⟩ := h
  obtain ⟨rfl, hbare, -⟩ := hstmts.printed (P := fun _ => True) fun hs =>
    ⟨hs.printed.1, hs.printed.2, trivial⟩
  simp [Block.symbols, Block.bare, hbare]

theorem Block.derives (b : Block) : DerivesBlock b.symbols b.bare :=
  .mk (.of_forall fun s _ => s.derives)

theorem DerivesParam.printed {p : Param} (h : DerivesParam ss p) :
    ss = p.symbols ∧ p.bare = p ∧ p.type.Named := by
  obtain ⟨ht⟩ := h
  obtain ⟨rfl, hbare, hnamed⟩ := ht.printed
  simp [Param.symbols, Param.bare, hbare, hnamed]

theorem Param.derives (p : Param) (h : p.type.Named) : DerivesParam p.symbols p.bare :=
  .mk (h.derives)

theorem DerivesParams.printed {ps : List Param} (h : DerivesParams ss ps) :
    ss = [Symbol.mark .comma].intercalate (ps.map Param.symbols) ∧ ps.map Param.bare = ps ∧
      ∀ p ∈ ps, p.type.Named := by
  cases h with
  | none => simp
  | some hps => exact hps.printed DerivesParam.printed

theorem derivesParams {ps : List Param} (h : ∀ p ∈ ps, p.type.Named) :
    DerivesParams ([Symbol.mark .comma].intercalate (ps.map Param.symbols))
      (ps.map Param.bare) := by
  cases ps with
  | nil => exact .none
  | cons p ps => exact .some (.of_forall fun p hp => p.derives (h p hp))

theorem DerivesFunction.printed {f : FunctionDecl} (h : DerivesFunction ss f) :
    ss = f.symbols ∧ f.bare = f ∧ f.Named := by
  obtain ⟨hps, ht, hb⟩ := h
  obtain ⟨rfl, hbareParams, hparams⟩ := hps.printed
  obtain ⟨rfl, hbareType, htype⟩ := ht.printed
  obtain ⟨rfl, hbareBody⟩ := hb.printed
  exact ⟨rfl, by simp [FunctionDecl.bare, hbareParams, hbareType, hbareBody], hparams, htype⟩

theorem FunctionDecl.Named.derives {f : FunctionDecl} (h : f.Named) :
    DerivesFunction f.symbols f.bare :=
  .mk (derivesParams h.1) h.2.derives f.body.derives

theorem DerivesTypeDecl.printed {t : TypeDecl} (h : DerivesTypeDecl ss t) :
    ss = t.symbols ∧ t.bare = t ∧ t.Named := by
  obtain ⟨hfs⟩ := h
  obtain ⟨rfl, hbare, hnamed⟩ := hfs.printed DerivesFunction.printed
  exact ⟨rfl, by simp [TypeDecl.bare, hbare], hnamed⟩

theorem TypeDecl.Named.derives {t : TypeDecl} (h : t.Named) : DerivesTypeDecl t.symbols t.bare :=
  .mk (.of_forall fun f hf => (h f hf).derives)

theorem DerivesModule.printed {m : ModuleDecl} (h : DerivesModule ss m) :
    ss = m.symbols ∧ m.bare = m ∧ m.Named := by
  obtain ⟨hts⟩ := h
  obtain ⟨rfl, hbare, hnamed⟩ := hts.printed DerivesTypeDecl.printed
  exact ⟨rfl, by simp [ModuleDecl.bare, hbare], hnamed⟩

theorem ModuleDecl.Named.derives {m : ModuleDecl} (h : m.Named) :
    DerivesModule m.symbols m.bare :=
  .mk (.of_forall fun t ht => (h t ht).derives)

theorem DerivesUse.printed {d : UseDecl} (h : DerivesUse ss d) :
    ss = d.symbols ∧ d.bare = d ∧ d.path.Named := by
  obtain ⟨hp⟩ := h
  obtain ⟨rfl, hbare, hnamed⟩ := hp.printed
  exact ⟨rfl, by simp [UseDecl.bare, hbare], hnamed⟩

theorem UseDecl.derives (d : UseDecl) (h : d.path.Named) : DerivesUse d.symbols d.bare :=
  .mk h.derives

theorem DerivesEdition.printed {e? : Option Edition} (h : DerivesEdition ss e?) :
    ss = (e?.map Edition.symbols).getD [] ∧ e?.map Edition.bare = e? := by
  cases h <;> exact ⟨rfl, rfl⟩

theorem derivesEdition (e? : Option Edition) :
    DerivesEdition ((e?.map Edition.symbols).getD []) (e?.map Edition.bare) := by
  cases e? with
  | none => exact .none
  | some e => exact .some

theorem SourceUnit.Named.derives {u : SourceUnit} (h : u.Named) : DerivesUnit u.symbols u.bare :=
  .mk (derivesEdition u.edition) (.of_forall fun d hd => d.derives (h.uses d hd))
    (.of_forall fun m hm => (h.modules m hm).derives)

/-- The units that derive are those that are printed, have no places and no empty paths. -/
theorem derivesUnit_iff {t : SourceUnit} :
    DerivesUnit ss t ↔ ss = t.symbols ∧ t.bare = t ∧ t.Named := by
  constructor
  · rintro ⟨he, hus, hms⟩
    obtain ⟨rfl, hbareEdition⟩ := he.printed
    obtain ⟨rfl, hbareUses, huses⟩ := hus.printed DerivesUse.printed
    obtain ⟨rfl, hbareModules, hmodules⟩ := hms.printed DerivesModule.printed
    refine ⟨rfl, ?_, huses, hmodules⟩
    simp [SourceUnit.bare, hbareEdition, hbareUses, hbareModules]
  · rintro ⟨rfl, hbare, hnamed⟩
    have h := hnamed.derives
    rwa [hbare] at h

end

end TypedTemplate
