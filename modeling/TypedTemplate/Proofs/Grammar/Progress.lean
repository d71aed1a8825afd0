-- SUMMARY: Each turn of the parser's loops takes a lexeme or is the last, and a unit is taken whole.
import TypedTemplate.Proofs.Grammar.Consumed

/-!
# Progress

Recovery stops before braces, semicolons and keywords without taking them, so that a loop goes on
with something new has to come from what is taken before and behind it. It does, for all lexemes
there are: a turn of a loop ends the loop or leaves fewer lexemes than it was given. So
there are at most as many turns as lexemes and one more.
-/

namespace TypedTemplate

open Parse

/-! ## Loops that end -/

section

variable {σ α : Type} {finish : Place} {turn : σ → Parse (Turn σ α)} {loop : Loop σ α}

/-- The loop ends with the turn after `n` more. -/
inductive EndsIn (finish : Place) (turn : σ → Parse (Turn σ α)) : Nat → σ → List Lexeme → Prop where
  | last {s : σ} {given : List Lexeme} :
      (∀ s' rest, ¬ Reply.Gets (turn s finish given) (.again s') rest) →
        EndsIn finish turn 0 s given
  | more {n : Nat} {s s' : σ} {given rest : List Lexeme} :
      Reply.Gets (turn s finish given) (.again s') rest → EndsIn finish turn n s' rest →
        EndsIn finish turn (n + 1) s given

theorem Progresses.exists_endsIn (h : Progresses finish turn) (s : σ) (given : List Lexeme) :
    ∃ n ≤ given.length, EndsIn finish turn n s given := by
  by_cases hmore : ∃ s' rest, Reply.Gets (turn s finish given) (.again s') rest
  · obtain ⟨s', rest, hgets⟩ := hmore
    have hlt := (h s given s' rest hgets).2
    obtain ⟨n, hn, hends⟩ := h.exists_endsIn s' rest
    exact ⟨n + 1, by omega, .more hgets hends⟩
  · exact ⟨0, Nat.zero_le _, .last fun s' rest hgets => hmore ⟨s', rest, hgets⟩⟩
termination_by given.length

/-- The loop does its turns one after the other, each but the last takes a lexeme, and so it
ends. -/
structure Finishes (finish : Place) (loop : Loop σ α) (turn : σ → Parse (Turn σ α)) : Prop where
  turns : loop.Turns finish turn
  progresses : Progresses finish turn
  ends : ∀ s given, ∃ n ≤ given.length, EndsIn finish turn n s given

theorem Finishes.of_progresses (hturns : loop.Turns finish turn) (h : Progresses finish turn) :
    Finishes finish loop turn :=
  ⟨hturns, h, h.exists_endsIn⟩

end

/-- The loop that reads items finishes. -/
def FinishesMany {α : Type} (finish : Place) (more : TokenKind → Bool) (item : Token → Parse α)
    (recover : Parse PUnit) : Prop :=
  Finishes finish (manyLoop more item recover finish) (manyTurn more item recover)

namespace Parse

variable {β : Type} {finish : Place}

/-- A parser that takes the next lexeme first leaves fewer. -/
theorem suffix_of_advance {next : Token → Parse β} {b : β} {lexeme : Lexeme}
    {given rest : List Lexeme} (hnext : ∀ token, (next token).Consumes fun _ => True)
    (h : Reply.Gets ((advance >>= next) finish (lexeme :: given)) b rest) :
    rest <:+ lexeme :: given ∧ rest.length < (lexeme :: given).length := by
  rw [bind_apply, advance_cons, Reply.taking_andThen, Reply.ok_andThen, Reply.gets_taking] at h
  have hsuffix := (hnext lexeme.token finish given).suffix
  rw [h.2] at hsuffix
  exact ⟨hsuffix.trans (List.suffix_cons lexeme given), Nat.lt_succ_of_le hsuffix.length_le⟩

theorem progresses_skip (finish : Place) (stop : List TokenKind) :
    Progresses finish (skipTurn stop) := by
  intro depth given depth' rest h
  cases given with
  | nil => simp [skipTurn, peek?, bind_apply, pure_apply] at h
  | cons lexeme given =>
    simp only [skipTurn, bind_apply, peek?, List.head?_cons, Option.map_some, Reply.ok_andThen] at h
    split at h
    case isTrue => simp [pure_apply] at h
    case isFalse => exact suffix_of_advance (fun _ => consumes_pure _) h

end Parse

namespace Grammar

theorem progresses_climb (g : Grammar) (min : Nat) : Progresses g.finish (g.climbTurn min) := by
  intro lhs given lhs' rest h
  rw [climbTurn, bind_apply, peek_apply, Reply.ok_andThen] at h
  have hident : ident.Consumes fun _ => True := consumes_ident fun _ _ => trivial
  have htight : ∀ power, (g.tight power).Consumes fun _ => True := fun power _ given =>
    (consumes_expr g power given).mono fun _ _ => trivial
  cases given with
  | nil => simp [nextToken, Token.eof, BinaryOp.ofToken?, pure_apply] at h
  | cons lexeme given =>
    rw [nextToken_cons] at h
    split at h
    case isTrue =>
      split at h
      case isTrue => simp [pure_apply] at h
      case isFalse =>
        have hcall : g.call?.Consumes fun _ => True := fun _ given =>
          (consumes_arguments? g given).mono fun _ _ => trivial
        refine suffix_of_advance (fun _ => hident.bind fun field => hcall.bind fun call => ?_) h
        cases call <;> exact consumes_pure _
    case isFalse =>
      split at h
      case isTrue =>
        split at h
        case isTrue => simp [pure_apply] at h
        case isFalse =>
          have hcolon : (expect .colon).Consumes fun _ => True :=
            consumes_expect (fun _ _ => trivial) (by decide)
          exact suffix_of_advance (fun _ => (htight 0).bind fun t => hcolon.bind fun _ =>
            (htight ternaryPower).bind fun f => consumes_pure _) h
      case isFalse =>
        generalize BinaryOp.ofToken? lexeme.token.kind = op? at h
        cases op? with
        | none => simp [pure_apply] at h
        | some op =>
          dsimp only at h
          split at h
          case isTrue => simp [pure_apply] at h
          case isFalse =>
            exact suffix_of_advance (fun _ => (htight _).bind fun rhs => consumes_pure _) h

/-- Every loop of the parser finishes: those over declarations and statements, which recover from
faults, those inside of paths, types, parameters and expressions, and that of recovery itself. -/
structure Progress (g : Grammar) : Prop where
  uses : FinishesMany g.finish (· == .useWord) useDecl do
    synchronize [.useWord, .moduleWord]
    let _ ← eat .semicolon
  modules : FinishesMany g.finish (fun _ => true) (declaration .moduleWord g.moduleDecl) do
    synchronize [.moduleWord]
    let _ ← eat .rightBrace
  types : FinishesMany g.finish (· != .rightBrace) (declaration .typeWord g.typeDecl)
    (synchronize [.typeWord])
  functions : FinishesMany g.finish (· != .rightBrace) (declaration .fnWord g.functionDecl)
    (synchronize [.fnWord])
  statements : FinishesMany g.finish (· != .rightBrace) g.statement do
    synchronize [.semicolon, .letWord, .returnWord]
    let _ ← eat .semicolon
  params : Finishes g.finish (paramsOnto g.finish) (commaTurn param)
  segments : Finishes g.finish (segmentsOnto g.finish) segmentTurn
  typeArgs : Finishes g.finish (typeArgsOnto g.finish)
    (commaTurn fun finish given => typeRef finish given)
  operators : ∀ min, Finishes g.finish (g.climb min) (g.climbTurn min)
  arguments : Finishes g.finish g.argumentsOnto (commaTurn g.value)
  skipping : ∀ stop, Finishes g.finish (skipLoop stop) (skipTurn stop)

theorem finishesMany {α : Type} {g : Grammar} {more : TokenKind → Bool} {item : Token → Parse α}
    {recover : Parse PUnit} (hitem : ∀ token, (item token).Consumes g.Clean)
    (hrecover : recover.Consumes fun _ => True) : FinishesMany g.finish more item recover :=
  .of_progresses (turns_many _ more item recover) (progresses_many hitem hrecover)

theorem progress (g : Grammar) : g.Progress where
  uses := finishesMany consumes_useDecl (consumes_synchronize_eat _ (by decide))
  modules := finishesMany (consumes_declaration consumes_moduleDecl)
    (consumes_synchronize_eat _ (by decide))
  types := finishesMany (consumes_declaration consumes_typeDecl) (consumes_synchronize _)
  functions := finishesMany (consumes_declaration consumes_functionDecl) (consumes_synchronize _)
  statements := finishesMany consumes_statement (consumes_synchronize_eat _ (by decide))
  params := .of_progresses (turns_params _) (progresses_comma (P := g.Clean) (consumes_param _))
  segments := .of_progresses (turns_segments _) (progresses_segments _)
  typeArgs := .of_progresses (turns_typeArgs _)
    (progresses_comma (P := g.Clean) (consumes_typeRefParser _))
  operators min := .of_progresses (turns_climb g min) (progresses_climb g min)
  arguments := .of_progresses (turns_arguments g _) (progresses_comma (consumes_value _))
  skipping stop := .of_progresses (turns_skip _ stop) (progresses_skip _ stop)

end Grammar

/-! ## Units are taken to their end -/

namespace Parse

variable {α : Type}

/-- Reading items does not fail, and stops only before a token that starts none. -/
theorem exists_gets_many (finish : Place) (more : TokenKind → Bool) (item : Token → Parse α)
    (recover : Parse PUnit) (out : List α) (given : List Lexeme) :
    ∃ as rest, (manyLoop more item recover finish out given).Gets as rest ∧
      ∀ lexeme ∈ rest.head?, more lexeme.token.kind = false := by
  rw [turns_many finish more item recover out given]
  cases given with
  | nil => exact ⟨out.reverse, [], ⟨rfl, rfl⟩, by simp⟩
  | cons lexeme given =>
    simp only [manyTurn, bind_apply, peek?, List.head?_cons, Option.map_some, Reply.ok_andThen]
    split
    case isFalse hmore => exact ⟨out.reverse, lexeme :: given, ⟨rfl, rfl⟩, by simpa using hmore⟩
    case isTrue =>
      obtain ⟨a?, ha⟩ := exists_result_orRecover (item lexeme.token) recover finish given
      simp only [bind_apply, advance_cons, Reply.taking_andThen, Reply.ok_andThen,
        Reply.andThen_andThen, Reply.gets_taking, Reply.gets_andThen]
      generalize (item lexeme.token).orRecover recover finish given = reply at ha
      have hle := reply.le
      obtain ⟨as, rest, hloop, hrest⟩ :=
        exists_gets_many finish more item recover (a?.toList ++ out) reply.rest
      refine ⟨as, rest, ⟨a?, reply.rest, hle, ⟨ha, rfl⟩, ?_⟩, hrest⟩
      exact ⟨_, _, Nat.le_refl _, ⟨rfl, rfl⟩, hloop⟩
termination_by given.length
decreasing_by subst_vars; simp only [List.length_cons]; omega

end Parse

namespace Grammar

theorem exists_gets_header (finish : Place) (given : List Lexeme) :
    ∃ e? rest, Reply.Gets (header finish given) e? rest := by
  rw [header, bind_apply, peek_apply, Reply.ok_andThen]
  split
  case isTrue hhash =>
    obtain ⟨lexeme, given, rfl⟩ := exists_of_kind_nextToken (by decide) hhash
    obtain ⟨e?, he⟩ := exists_result_orRecover (edition lexeme.token)
      (synchronize [.useWord, .moduleWord]) finish given
    exact ⟨e?, _, Reply.gets_andThen.2 ⟨_, _, Nat.le_succ _, ⟨rfl, rfl⟩, he, rfl⟩⟩
  case isFalse => exact ⟨none, given, rfl, rfl⟩

/-- Whatever the lexemes are, the declarations are read up to the last of them. -/
theorem exists_gets_declarations (g : Grammar) (finish : Place) (given : List Lexeme) :
    ∃ d, Reply.Gets (g.declarations finish given) d [] := by
  obtain ⟨e?, mid, he⟩ := exists_gets_header finish given
  obtain ⟨uses, mid', huses, -⟩ := exists_gets_many finish (· == .useWord) useDecl
    (do synchronize [.useWord, .moduleWord]; let _ ← eat .semicolon) [] mid
  obtain ⟨modules, rest, hmodules, hrest⟩ := exists_gets_many finish (fun _ => true)
    (declaration .moduleWord g.moduleDecl)
    (do synchronize [.moduleWord]; let _ ← eat .rightBrace) [] mid'
  obtain rfl : rest = [] := by
    cases rest with
    | nil => rfl
    | cons lexeme rest => exact absurd (hrest lexeme rfl) (by decide)
  refine ⟨(e?, uses, modules), ?_⟩
  rw [declarations, bind_apply]
  refine Reply.gets_andThen.2 ⟨e?, mid, he.2 ▸ Reply.le _, he, ?_⟩
  refine Reply.gets_andThen.2 ⟨uses, mid', huses.2 ▸ Reply.le _, huses, ?_⟩
  exact Reply.gets_andThen.2 ⟨modules, [], Nat.zero_le _, hmodules, rfl, rfl⟩

end Grammar

end TypedTemplate
