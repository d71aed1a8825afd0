-- SUMMARY: A type takes names, separators and balanced angle brackets.
import TypedTemplate.Proofs.Grammar.Yield

/-!
# Brackets of types

The tokens of a type are names, `::`, commas and angle brackets. The brackets balance,
and a comma stands only between them. So what is left behind a type is at the depth of
brackets at which the type started.
-/

namespace TypedTemplate

/-- The depth of angle brackets behind a token of a type at depth `d`. -/
def nestStep (d : Nat) : TokenKind → Option Nat
  | .identifier => some d
  | .colonColon => some d
  | .less       => some (d + 1)
  | .greater    => if d = 0 then none else some (d - 1)
  | .comma      => if d = 0 then none else some d
  | _           => none

/-- The depth of angle brackets behind tokens of types, which start at depth `d`. -/
def nest : Nat → List TokenKind → Option Nat
  | d, []      => some d
  | d, k :: ks => (nestStep d k).bind fun d' => nest d' ks

theorem nest_append (d : Nat) (ks ks' : List TokenKind) :
    nest d (ks ++ ks') = (nest d ks).bind fun d' => nest d' ks' := by
  induction ks generalizing d with
  | nil => rfl
  | cons k ks ih =>
    simp only [List.cons_append, nest]
    cases nestStep d k with
    | none => rfl
    | some d' => exact ih d'

/-- The kinds of tokens that stand in types. -/
def TokenKind.typeMarks : List TokenKind := [.identifier, .colonColon, .less, .greater, .comma]

theorem mem_typeMarks {d d' : Nat} {ks : List TokenKind} (h : nest d ks = some d') :
    ∀ kind ∈ ks, kind ∈ TokenKind.typeMarks := by
  induction ks generalizing d with
  | nil => simp
  | cons k ks ih =>
    obtain ⟨e, hstep, hrest⟩ := Option.bind_eq_some_iff.1 h
    have hk : k ∈ TokenKind.typeMarks := by
      unfold nestStep at hstep
      split at hstep <;> first | decide | cases hstep
    intro kind hkind
    rcases List.mem_cons.1 hkind with rfl | hkind
    · exact hk
    · exact ih hrest kind hkind

/-- A comma among the first tokens of a type stands between brackets. Behind a token that stands in
no type nothing is asked. -/
def CommasNested : Nat → List TokenKind → Prop
  | _, []      => True
  | d, k :: ks => (k = .comma → d ≠ 0) ∧ ∀ d', nestStep d k = some d' → CommasNested d' ks

theorem CommasNested.append {d d' : Nat} {ks ks' : List TokenKind}
    (h : CommasNested d (ks ++ ks')) (hks : nest d ks = some d') : CommasNested d' ks' := by
  induction ks generalizing d with
  | nil =>
    cases hks
    exact h
  | cons k ks ih =>
    obtain ⟨e, hstep, hrest⟩ := Option.bind_eq_some_iff.1 hks
    exact ih (h.2 e hstep) hrest

/-- From `given` to `rest` there are tokens of types, whose brackets balance, at any depth from `n`
on. -/
def Nests (n : Nat) (given rest : List Lexeme) : Prop :=
  ∃ used : List Lexeme, given = used ++ rest ∧
    ∀ d, n ≤ d → nest d (used.map (·.token.kind)) = some d

namespace Nests

variable {n : Nat} {given mid rest : List Lexeme} {lexeme : Lexeme}

theorem refl (n : Nat) (given : List Lexeme) : Nests n given given := ⟨[], rfl, by simp [nest]⟩

theorem trans (h : Nests n given mid) (h' : Nests n mid rest) : Nests n given rest := by
  obtain ⟨used, rfl, hused⟩ := h
  obtain ⟨used', rfl, hused'⟩ := h'
  refine ⟨used ++ used', by simp, ?_⟩
  intro d hd
  rw [List.map_append, nest_append, hused d hd]
  exact hused' d hd

theorem suffix (h : Nests n given rest) : rest <:+ given := by
  obtain ⟨used, rfl, -⟩ := h
  exact List.suffix_append used rest

theorem mono {m : Nat} (h : Nests n given rest) (hle : n ≤ m) : Nests m given rest := by
  obtain ⟨used, rfl, hused⟩ := h
  exact ⟨used, rfl, fun d hd => hused d (Nat.le_trans hle hd)⟩

/-- A lexeme that leaves the depth as it is. -/
theorem cons (hkind : ∀ d, n ≤ d → nestStep d lexeme.token.kind = some d)
    (h : Nests n given rest) : Nests n (lexeme :: given) rest := by
  obtain ⟨used, rfl, hused⟩ := h
  refine ⟨lexeme :: used, rfl, ?_⟩
  intro d hd
  rw [List.map_cons, nest, hkind d hd]
  exact hused d hd

/-- Type arguments between their brackets. -/
theorem bracket {opening closing : Lexeme} (hopen : opening.token.kind = .less)
    (hclose : closing.token.kind = .greater) (h : Nests 1 given (closing :: rest)) :
    Nests n (opening :: given) rest := by
  obtain ⟨used, rfl, hused⟩ := h
  refine ⟨opening :: (used ++ [closing]), by simp, ?_⟩
  intro d _
  have hargs := hused (d + 1) (Nat.succ_le_succ (Nat.zero_le d))
  simp [hopen, hclose, nest, nestStep, nest_append, hargs]

end Nests

namespace Grammar

open Parse

theorem ident_nests {finish : Place} {given rest : List Lexeme} {x : Ident} (n : Nat)
    (h : ident.Yields finish given x rest) : Nests n given rest := by
  obtain ⟨lexeme, rfl, hkind, -⟩ := yields_ident.1 h
  exact (Nests.refl n rest).cons (by simp [hkind, nestStep])

theorem segmentsOnto_nests {finish : Place} {out xs : List Ident} {given rest : List Lexeme}
    (n : Nat) (h : (segmentsOnto finish out given).Yields xs rest) : Nests n given rest := by
  cases given with
  | nil =>
    rw [segmentsOnto] at h
    obtain ⟨-, rfl⟩ := Reply.yields_ok.1 h
    exact .refl n []
  | cons lexeme given =>
    rw [segmentsOnto] at h
    split at h
    case isTrue hkind =>
      obtain ⟨x, mid, hle, hx, h⟩ := Reply.yields_andThen.1 (Reply.yields_taking.1 h)
      have hrest := segmentsOnto_nests n h
      exact ((ident_nests n hx).trans hrest).cons (by simp [hkind, nestStep])
    case isFalse =>
      obtain ⟨-, rfl⟩ := Reply.yields_ok.1 h
      exact .refl n _
termination_by given.length
decreasing_by subst_vars; simp only [List.length_cons]; omega

theorem path_nests {finish : Place} {given rest : List Lexeme} {p : Path} (n : Nat)
    (h : path.Yields finish given p rest) : Nests n given rest := by
  obtain ⟨x, mid, hx, h⟩ := yields_bind.1 h
  obtain ⟨xs, mid', hxs, h⟩ := yields_bind.1 h
  obtain ⟨-, rfl⟩ := yields_pure.1 h
  exact (ident_nests n hx).trans (segmentsOnto_nests n hxs)

mutual

theorem typeRef_nests {finish : Place} {given rest : List Lexeme} {t : TypeRef} (n : Nat)
    (h : (typeRef finish given).Yields t rest) : Nests n given rest := by
  rw [typeRef] at h
  split at h
  case isTrue => exact absurd h Reply.yields_fail
  case isFalse =>
    obtain ⟨p, mid, hle, hp, h⟩ := Reply.yields_andThen.1 h
    have hpath := path_nests n hp
    refine hpath.trans ?_
    cases mid with
    | nil =>
      obtain ⟨-, rfl⟩ := Reply.yields_ok.1 h
      exact .refl n []
    | cons opening mid =>
      simp only at h
      split at h
      case isTrue hopen =>
        obtain ⟨args, mid', hle', hargs, h⟩ := Reply.yields_andThen.1 (Reply.yields_taking.1 h)
        obtain ⟨close, mid'', -, hclose, h⟩ := Reply.yields_andThen.1 h
        obtain ⟨-, rfl⟩ := Reply.yields_ok.1 h
        obtain ⟨closing, rfl, rfl, hclosing⟩ := (yields_expect (by decide)).1 hclose
        have hlt : mid.length < given.length := hle
        exact (typeArgsOnto_nests hargs).bracket hopen hclosing
      case isFalse =>
        obtain ⟨-, rfl⟩ := Reply.yields_ok.1 h
        exact .refl n _
termination_by 2 * given.length

theorem typeArgsOnto_nests {finish : Place} {out ts : List TypeRef} {given rest : List Lexeme}
    (h : (typeArgsOnto finish out given).Yields ts rest) : Nests 1 given rest := by
  rw [typeArgsOnto] at h
  obtain ⟨t, mid, hle, ht, h⟩ := Reply.yields_andThen.1 h
  refine (typeRef_nests 1 ht).trans ?_
  cases mid with
  | nil =>
    obtain ⟨-, rfl⟩ := Reply.yields_ok.1 h
    exact .refl 1 []
  | cons lexeme mid =>
    simp only at h
    split at h
    case isTrue hcomma =>
      have hrest := typeArgsOnto_nests (Reply.yields_taking.1 h)
      refine hrest.cons ?_
      intro d hd
      simp [hcomma, nestStep, Nat.pos_iff_ne_zero.1 hd]
    case isFalse =>
      obtain ⟨-, rfl⟩ := Reply.yields_ok.1 h
      exact .refl 1 _
termination_by 2 * given.length + 1

end

end Grammar

end TypedTemplate
