-- SUMMARY: The loops of the parser, each as a turn that is done over and over.
import TypedTemplate.Proofs.Grammar.Takes

/-!
# Loops

What the parser reads in a loop is read by a production that calls itself. Here each of
these is the same as doing one turn and, unless that ends the loop, going on with the lexemes that
are left.
-/

namespace TypedTemplate

/-! ## Sequencing -/

namespace Reply

variable {given : List Lexeme} {α β γ : Type}

@[simp] theorem ok_andThen (a : α)
    (next : α → (rest : List Lexeme) → rest.length ≤ given.length → Reply rest β) :
    (ok a : Reply given α).andThen next = next a given (all_left given) := rfl

@[simp] theorem taking_andThen {lexeme : Lexeme} (r : Reply given α)
    (next : α → (rest : List Lexeme) → rest.length ≤ (lexeme :: given).length → Reply rest β) :
    (r.taking : Reply (lexeme :: given) α).andThen next =
      (r.andThen fun a rest h => next a rest (Nat.le_succ_of_le h)).taking := by
  obtain ⟨result, rest, recorded, hle⟩ := r
  cases result <;> rfl

@[simp] theorem andThen_andThen {r : Reply given α}
    (next : α → (rest : List Lexeme) → rest.length ≤ given.length → Reply rest β)
    (next' : β → (rest : List Lexeme) → rest.length ≤ given.length → Reply rest γ) :
    (r.andThen next).andThen next' = r.andThen fun a rest h => (next a rest h).andThen
      fun b rest' h' => next' b rest' (Nat.le_trans h' h) := by
  obtain ⟨result, rest, recorded, hle⟩ := r
  cases result with
  | error e => rfl
  | ok a =>
    simp only [andThen]
    obtain ⟨result, rest', recorded', hle'⟩ := next a rest hle
    cases result with
    | error e => rfl
    | ok b => simp [widen, recording]

/-- The parser succeeded with `a` and left `rest`, whatever it recorded. -/
def Gets (r : Reply given α) (a : α) (rest : List Lexeme) : Prop :=
  r.result = .ok a ∧ r.rest = rest

@[simp] theorem gets_ok {a a' : α} {rest : List Lexeme} :
    (ok a' : Reply given α).Gets a rest ↔ a' = a ∧ given = rest := by
  simp [ok, Gets]

@[simp] theorem gets_taking {lexeme : Lexeme} {r : Reply given α} {a : α} {rest : List Lexeme} :
    (r.taking : Reply (lexeme :: given) α).Gets a rest ↔ r.Gets a rest := .rfl

@[simp] theorem gets_andThen {r : Reply given α}
    {next : α → (rest : List Lexeme) → rest.length ≤ given.length → Reply rest β} {b : β}
    {rest : List Lexeme} :
    (r.andThen next).Gets b rest ↔
      ∃ a mid, ∃ h : mid.length ≤ given.length, r.Gets a mid ∧ (next a mid h).Gets b rest := by
  obtain ⟨result, left, recorded, h⟩ := r
  cases result with
  | error e => simp [andThen, Gets]
  | ok a =>
    constructor
    · intro hnext
      exact ⟨a, left, h, ⟨rfl, rfl⟩, hnext⟩
    · rintro ⟨_, _, _, ⟨⟨⟩, rfl⟩, hnext⟩
      exact hnext

theorem eq_of {r r' : Reply given α} (hresult : r.result = r'.result) (hrest : r.rest = r'.rest)
    (hrecorded : r.recorded = r'.recorded) : r = r' := by
  obtain ⟨_, _, _, _⟩ := r
  obtain ⟨_, _, _, _⟩ := r'
  cases hresult
  cases hrest
  cases hrecorded
  rfl

end Reply

namespace Parse

variable {α β : Type} {finish : Place} {given : List Lexeme} {lexeme : Lexeme} {kind : TokenKind}

theorem bind_apply (p : Parse α) (next : α → Parse β) :
    (p >>= next) finish given = (p finish given).andThen fun a rest _ => next a finish rest := rfl

theorem pure_apply (a : α) : (pure a : Parse α) finish given = .ok a := rfl

theorem peek_apply : peek finish given = .ok (nextToken finish given) := by
  cases given <;> rfl

theorem advance_cons : advance finish (lexeme :: given) = (Reply.ok lexeme.token).taking := rfl

theorem eat_cons : eat kind finish (lexeme :: given) =
    if lexeme.token.kind = kind then (Reply.ok true).taking else .ok false := by
  simp only [eat, bind_apply, peek_apply, Reply.ok_andThen, nextToken_cons]
  split <;> rfl

theorem eat_nil (heof : kind ≠ .eof) : eat kind finish [] = .ok false := by
  have hkind : ¬ (nextToken finish []).kind = kind := heof.symm
  simp only [eat, bind_apply, peek_apply, Reply.ok_andThen, if_neg hkind]
  rfl

end Parse

/-! ## Turns -/

/-- What a turn of a loop comes to: the result of the loop, or what it goes on with. -/
inductive Turn (σ α : Type) where
  | done (a : α)
  | again (s : σ)

section

variable {σ α : Type}

/-- A turn that is not the last takes at least one lexeme off the front. -/
def Progresses (finish : Place) (turn : σ → Parse (Turn σ α)) : Prop :=
  ∀ s given s' rest, Reply.Gets (turn s finish given) (.again s') rest →
    rest <:+ given ∧ rest.length < given.length

/-- A production that goes on from a state. -/
abbrev Loop (σ α : Type) : Type := σ → (given : List Lexeme) → Reply given α

/-- End the loop after its last turn, or go on. -/
def Turn.goOn (loop : Loop σ α) (given : List Lexeme) : Turn σ α → Reply given α
  | .done a  => .ok a
  | .again s => loop s given

/-- The loop does one turn and, unless that ends it, goes on with what is left. -/
def Loop.Turns (loop : Loop σ α) (finish : Place) (turn : σ → Parse (Turn σ α)) : Prop :=
  ∀ s given, loop s given = (turn s finish given).andThen fun t rest _ => t.goOn loop rest

end

namespace Parse

variable {α : Type}

/-- The next token, which is left in place, unless the unit ends. -/
def peek? : Parse (Option Token) := fun _ given => .ok (given.head?.map (·.token))

/-- One item and the comma behind it, without which the list ends. -/
def commaTurn (item : Parse α) (out : List α) : Parse (Turn (List α) (List α)) := do
  let a ← item
  if ← eat .comma then return .again (a :: out) else return .done (a :: out).reverse

/-- One item or what is skipped for it. -/
def manyTurn (more : TokenKind → Bool) (item : Token → Parse α) (recover : Parse PUnit)
    (out : List α) : Parse (Turn (List α) (List α)) := do
  match ← peek? with
  | none       => return .done out.reverse
  | some token =>
    if more token.kind then
      let token ← advance
      let a? ← (item token).orRecover recover
      return .again (a?.toList ++ out)
    else return .done out.reverse

/-- Items behind those of `out`, which is in reverse. This is how `many` goes on; it starts with
none. -/
def manyLoop (more : TokenKind → Bool) (item : Token → Parse α) (recover : Parse PUnit)
    (finish : Place) : Loop (List α) (List α) := fun out given =>
  manyOnto more item recover finish out [] given (Reply.all_left given)

/-- Skip a lexeme, unless the skipping ends before it. -/
def skipTurn (stop : List TokenKind) (depth : Nat) : Parse (Turn Nat PUnit) := do
  match ← peek? with
  | none       => return .done ⟨⟩
  | some token =>
    let kind := token.kind
    if depth = 0 ∧ (kind = .rightBrace ∨ kind ∈ stop) then return .done ⟨⟩
    else
      let _ ← advance
      return .again
        (if kind = .leftBrace then depth + 1
        else if kind = .rightBrace then depth - 1
        else depth)

/-- Skip inside so many open braces. -/
def skipLoop (stop : List TokenKind) : Loop Nat PUnit := fun depth given =>
  ⟨.ok ⟨⟩, skipTo stop depth given, [], length_skipTo_le stop depth given⟩

theorem turns_skip (finish : Place) (stop : List TokenKind) :
    (skipLoop stop).Turns finish (skipTurn stop) := by
  intro depth given
  cases given with
  | nil => rfl
  | cons lexeme given =>
    simp only [skipTurn, skipLoop, skipTo, bind_apply, peek?, List.head?_cons, Option.map_some,
      Reply.ok_andThen]
    split
    case isTrue => rfl
    case isFalse =>
      simp only [bind_apply, advance_cons, Reply.taking_andThen, Reply.ok_andThen]
      split
      case isTrue => rfl
      case isFalse => split <;> rfl

theorem turns_comma {loop : Loop (List α) (List α)} {finish : Place} {item : Parse α}
    (hloop : ∀ out given, loop out given = (item finish given).andThen fun a rest _ =>
      match rest with
      | []             => .ok (a :: out).reverse
      | lexeme :: rest =>
        if lexeme.token.kind = .comma then (loop (a :: out) rest).taking
        else .ok (a :: out).reverse) :
    loop.Turns finish (commaTurn item) := by
  intro out given
  rw [hloop, commaTurn, bind_apply, Reply.andThen_andThen]
  congr 1
  funext a rest hle
  rw [bind_apply]
  cases rest with
  | nil =>
    rw [eat_nil (by decide)]
    rfl
  | cons lexeme rest =>
    rw [eat_cons]
    by_cases hcomma : lexeme.token.kind = .comma
    · simp only [if_pos hcomma]
      rfl
    · simp only [if_neg hcomma]
      rfl

/-- What is recorded before the loop stays in front of what the loop records. -/
theorem manyOnto_eq (more : TokenKind → Bool) (item : Token → Parse α) (recover : Parse PUnit)
    (finish : Place) (out : List α) (recorded : List ParseError) {outer given : List Lexeme}
    (h : given.length ≤ outer.length) :
    manyOnto more item recover finish out recorded given h =
      ((manyLoop more item recover finish out given).recording recorded.reverse).widen h := by
  obtain ⟨as, rest, es, hmany⟩ := exists_manyOnto more item recover finish given
  obtain ⟨hresult, hrest, hrecorded⟩ := hmany out recorded h
  obtain ⟨hresult', hrest', hrecorded'⟩ := hmany out [] (Reply.all_left given)
  refine Reply.eq_of ?_ ?_ ?_
  · exact hresult.trans hresult'.symm
  · exact hrest.trans hrest'.symm
  · exact hrecorded.trans (congrArg (recorded.reverse ++ ·) hrecorded'.symm)

/-- With recovery a parser does not stop. -/
theorem exists_result_orRecover (p : Parse α) (recover : Parse PUnit) (finish : Place)
    (given : List Lexeme) : ∃ a?, (p.orRecover recover finish given).result = .ok a? := by
  unfold orRecover
  split
  · exact ⟨_, rfl⟩
  · exact ⟨_, rfl⟩

theorem turns_many (finish : Place) (more : TokenKind → Bool) (item : Token → Parse α)
    (recover : Parse PUnit) :
    (manyLoop more item recover finish).Turns finish (manyTurn more item recover) := by
  intro out given
  cases given with
  | nil =>
    rw [manyLoop, manyOnto]
    rfl
  | cons lexeme given =>
    rw [manyLoop, manyOnto]
    simp only [manyTurn, bind_apply, peek?, List.head?_cons, Option.map_some, Reply.ok_andThen]
    split
    case isFalse => rfl
    case isTrue =>
      obtain ⟨a?, hresult⟩ :=
        exists_result_orRecover (item lexeme.token) recover finish given
      simp only [bind_apply, advance_cons, Reply.taking_andThen, Reply.ok_andThen, manyOnto_eq,
        Reply.andThen_andThen, List.append_nil, List.reverse_reverse]
      generalize (item lexeme.token).orRecover recover finish given = reply at hresult
      obtain ⟨_, rest, recorded, hle⟩ := reply
      obtain rfl := hresult
      cases a? <;> rfl

end Parse

namespace Grammar

open Parse

/-- One more segment of a path, if one follows. -/
def segmentTurn (out : List Ident) : Parse (Turn (List Ident) (List Ident)) := do
  if ← eat .colonColon then
    let segment ← ident
    return .again (segment :: out)
  else return .done out.reverse

theorem turns_segments (finish : Place) :
    Loop.Turns (segmentsOnto finish) finish segmentTurn := by
  intro out given
  rw [segmentTurn, bind_apply]
  cases given with
  | nil =>
    rw [segmentsOnto, eat_nil (by decide)]
    rfl
  | cons lexeme given =>
    rw [segmentsOnto, eat_cons]
    split
    case isTrue =>
      simp only [Reply.taking_andThen, Reply.ok_andThen, if_true, bind_apply, Reply.andThen_andThen]
      rfl
    case isFalse => rfl

theorem turns_params (finish : Place) :
    Loop.Turns (paramsOnto finish) finish (commaTurn param) :=
  turns_comma (paramsOnto.eq_def finish)

theorem turns_typeArgs (finish : Place) :
    Loop.Turns (typeArgsOnto finish) finish (commaTurn fun finish given => typeRef finish given) :=
  turns_comma (typeArgsOnto.eq_def finish)

theorem turns_arguments (g : Grammar) (finish : Place) :
    Loop.Turns g.argumentsOnto finish (commaTurn g.value) :=
  turns_comma (argumentsOnto.eq_def g)

/-- An expression whose operators bind at least as tightly as `min`. -/
def tight (g : Grammar) (min : Nat) : Parse Expr := fun _ given => g.expr min given

/-- The arguments of a call, if a parenthesis opens next. -/
def call? (g : Grammar) : Parse (Option (List Expr × Span)) := fun _ given => g.arguments? given

/-- One more operator behind `lhs` with what belongs to it, if one follows that binds at least as
tightly as `min`. -/
def climbTurn (g : Grammar) (min : Nat) (lhs : Expr) : Parse (Turn Expr Expr) := do
  let token ← peek
  if token.kind = .dot then
    if memberPower < min then return .done lhs
    else
      let _ ← advance
      let field ← ident
      match ← g.call? with
      | none                 => return .again (.member lhs field (lhs.span.merge field.span))
      | some (args, closing) => return .again (.call lhs field args (lhs.span.merge closing))
  else if token.kind = .question then
    if ternaryPower < min then return .done lhs
    else
      let _ ← advance
      let whenTrue ← g.tight 0
      let _ ← expect .colon
      let whenFalse ← g.tight ternaryPower
      return .again (.ternary lhs whenTrue whenFalse (lhs.span.merge whenFalse.span))
  else
    match BinaryOp.ofToken? token.kind with
    | none    => return .done lhs
    | some op =>
      if op.leftPower < min then return .done lhs
      else
        let _ ← advance
        let rhs ← g.tight op.rightPower
        return .again (.binary op lhs rhs (lhs.span.merge rhs.span))

theorem turns_climb (g : Grammar) (min : Nat) :
    Loop.Turns (g.climb min) g.finish (g.climbTurn min) := by
  intro lhs given
  rw [climbTurn, bind_apply, peek_apply, Reply.ok_andThen]
  cases given with
  | nil =>
    rw [climb]
    rfl
  | cons lexeme given =>
    rw [climb, nextToken_cons]
    by_cases hdot : lexeme.token.kind = .dot
    · rw [if_pos hdot, if_pos hdot]
      by_cases hmin : memberPower < min
      · rw [if_pos hmin, if_pos hmin]
        rfl
      · rw [if_neg hmin, if_neg hmin]
        simp only [bind_apply, advance_cons, Reply.taking_andThen, Reply.ok_andThen,
          Reply.andThen_andThen]
        congr 1
        congr 1
        funext field rest hle
        congr 1
        funext call rest' hle'
        cases call <;> rfl
    rw [if_neg hdot, if_neg hdot]
    by_cases hquestion : lexeme.token.kind = .question
    · rw [if_pos hquestion, if_pos hquestion]
      by_cases hmin : ternaryPower < min
      · rw [if_pos hmin, if_pos hmin]
        rfl
      · rw [if_neg hmin, if_neg hmin]
        simp only [bind_apply, advance_cons, Reply.taking_andThen, Reply.ok_andThen,
          Reply.andThen_andThen]
        rfl
    rw [if_neg hquestion, if_neg hquestion]
    cases BinaryOp.ofToken? lexeme.token.kind with
    | none => rfl
    | some op =>
      by_cases hmin : op.leftPower < min
      · simp only [if_pos hmin]
        rfl
      · simp only [if_neg hmin, bind_apply, advance_cons, Reply.taking_andThen, Reply.ok_andThen,
          Reply.andThen_andThen]
        rfl

end Grammar

end TypedTemplate
