-- SUMMARY: What productions take off the lexemes, and that no faulty string is taken unnoticed.
import TypedTemplate.Proofs.Grammar.Loop

/-!
# Consumed lexemes

Every production takes lexemes off the front and leaves the others as they are, also where it stops
at an error or skips what the error spoils. Where nothing went wrong, it can be said of each lexeme
that was taken that it is no interpolated string with errors in its holes: those would have been
recorded.
-/

namespace TypedTemplate

variable {P : Lexeme → Prop}

/-! ## Replies -/

namespace Reply

variable {given mid rest : List Lexeme} {α β : Type} {a : α} {b : β}

/-- The reply leaves an end of the lexemes. If nothing went wrong, all before it have `P`. -/
def Consumes (P : Lexeme → Prop) (r : Reply given α) : Prop :=
  ∃ used, given = used ++ r.rest ∧ ∀ a rest, r.Yields a rest → ∀ lexeme ∈ used, P lexeme

theorem Consumes.suffix {r : Reply given α} (h : r.Consumes P) : r.rest <:+ given := by
  obtain ⟨used, hgiven, -⟩ := h
  exact ⟨used, hgiven.symm⟩

theorem Consumes.mono {Q : Lexeme → Prop} {r : Reply given α} (h : r.Consumes P)
    (hPQ : ∀ lexeme, P lexeme → Q lexeme) : r.Consumes Q := by
  obtain ⟨used, hgiven, hused⟩ := h
  exact ⟨used, hgiven, fun a rest hr lexeme hlexeme => hPQ lexeme (hused a rest hr lexeme hlexeme)⟩

theorem consumes_ok (a : α) : (ok a : Reply given α).Consumes P := ⟨[], rfl, by simp⟩

theorem consumes_fail (e : ParseError) : (fail e : Reply given α).Consumes P := ⟨[], rfl, by simp⟩

/-- One lexeme more is taken, which has `P` unless something goes wrong behind it. -/
theorem Consumes.taking {r : Reply given α} {lexeme : Lexeme} (h : r.Consumes P)
    (hlexeme : ∀ a rest, r.Yields a rest → P lexeme) :
    (r.taking : Reply (lexeme :: given) α).Consumes P := by
  obtain ⟨used, hgiven, hused⟩ := h
  refine ⟨lexeme :: used, congrArg (lexeme :: ·) hgiven, fun a rest hr => ?_⟩
  exact List.forall_mem_cons.2 ⟨hlexeme a rest hr, hused a rest hr⟩

theorem Consumes.recording {r : Reply given α} (h : r.Consumes P) (es : List ParseError) :
    (r.recording es).Consumes P := by
  obtain ⟨used, hgiven, hused⟩ := h
  exact ⟨used, hgiven, fun a rest hr => hused a rest (yields_recording.1 hr).2⟩

theorem Consumes.andThen {r : Reply given α}
    {next : α → (rest : List Lexeme) → rest.length ≤ given.length → Reply rest β}
    (h : r.Consumes P) (hnext : ∀ a rest hle, r.Gets a rest → (next a rest hle).Consumes P) :
    (r.andThen next).Consumes P := by
  obtain ⟨result, mid, recorded, hle⟩ := r
  obtain ⟨used, hgiven, hused⟩ := h
  cases result with
  | error e => exact ⟨used, hgiven, by simp [Reply.andThen]⟩
  | ok a =>
    obtain ⟨used', hmid, hused'⟩ := hnext a mid hle ⟨rfl, rfl⟩
    refine ⟨used ++ used', ?_, ?_⟩
    · rw [List.append_assoc]
      exact hgiven.trans (congrArg (used ++ ·) hmid)
    · intro b rest hb
      obtain ⟨a', mid', hle', ha, hb⟩ := yields_andThen.1 hb
      obtain ⟨rfl, rfl, -⟩ := yields_mk_ok.1 ha
      exact List.forall_mem_append.2 ⟨hused _ _ ha, hused' _ _ hb⟩

end Reply

/-! ## Parsers -/

namespace Parse

variable {α β : Type} {finish : Place} {kind : TokenKind}

/-- The parser takes lexemes off the front and, where nothing goes wrong, such with `P` only. -/
def Consumes (P : Lexeme → Prop) (p : Parse α) : Prop :=
  ∀ finish given, Reply.Consumes P (p finish given)

theorem Consumes.mono {Q : Lexeme → Prop} {p : Parse α} (h : p.Consumes P)
    (hPQ : ∀ lexeme, P lexeme → Q lexeme) : p.Consumes Q :=
  fun finish given => (h finish given).mono hPQ

theorem consumes_pure (a : α) : (pure a : Parse α).Consumes P := fun _ _ => Reply.consumes_ok a

theorem consumes_fail (e : ParseError) : (fail e : Parse α).Consumes P :=
  fun _ _ => Reply.consumes_fail e

theorem Consumes.bind {p : Parse α} {next : α → Parse β} (h : p.Consumes P)
    (hnext : ∀ a, (next a).Consumes P) : (p >>= next).Consumes P :=
  fun finish given => (h finish given).andThen fun a rest _ _ => hnext a finish rest

theorem consumes_peek : peek.Consumes P := by
  intro finish given
  cases given <;> exact Reply.consumes_ok _

/-- A parser that looks at the next token first. -/
theorem consumes_peek_bind {next : Token → Parse β}
    (h : ∀ finish given, Reply.Consumes P (next (nextToken finish given) finish given)) :
    (peek >>= next).Consumes P := by
  intro finish given
  have hnext := (h finish given).recording []
  cases given <;> exact hnext

/-- A parser that looks at the next token, which is of the kind and taken or something else. -/
theorem consumes_take {next : Token → Parse α} {otherwise : Token → Parse α} (heof : kind ≠ .eof)
    (hnext : ∀ lexeme finish given, lexeme.token.kind = kind →
      Reply.Consumes P (next lexeme.token finish (lexeme :: given)))
    (hotherwise : ∀ token, (otherwise token).Consumes P) :
    (peek >>= fun token =>
      if token.kind = kind then next token else otherwise token).Consumes P := by
  refine consumes_peek_bind fun finish given => ?_
  split
  case isTrue hkind =>
    obtain ⟨lexeme, rest, rfl⟩ := exists_of_kind_nextToken heof hkind
    exact hnext lexeme finish rest hkind
  case isFalse => exact hotherwise _ finish given

theorem consumes_advance_cons {lexeme : Lexeme} {given : List Lexeme} (hP : P lexeme) :
    Reply.Consumes P (advance finish (lexeme :: given)) :=
  (Reply.consumes_ok lexeme.token).taking fun _ _ _ => hP

variable (hP : ∀ lexeme : Lexeme, lexeme.token.kind = kind → P lexeme)
include hP

theorem consumes_eat (heof : kind ≠ .eof) : (eat kind).Consumes P :=
  consumes_take heof
    (fun _ _ _ hkind => (consumes_advance_cons (hP _ hkind)).andThen
      fun _ _ _ _ => Reply.consumes_ok true)
    fun _ => consumes_pure false

theorem consumes_expect (heof : kind ≠ .eof) : (expect kind).Consumes P := by
  refine consumes_take heof (fun _ _ _ hkind => consumes_advance_cons (hP _ hkind)) fun token => ?_
  split <;> exact consumes_fail _

omit hP

theorem consumes_ident (hP : ∀ lexeme : Lexeme, lexeme.token.kind = .identifier → P lexeme) :
    ident.Consumes P :=
  consumes_take (by decide)
    (fun _ _ _ hkind => (consumes_advance_cons (hP _ hkind)).andThen
      fun _ _ _ _ => Reply.consumes_ok _)
    fun _ => consumes_fail _

theorem suffix_skipTo (stop : List TokenKind) (depth : Nat) (lexemes : List Lexeme) :
    skipTo stop depth lexemes <:+ lexemes := by
  fun_induction skipTo stop depth lexemes with
  | case1 | case2 => exact List.suffix_rfl
  | case3 _ lexeme rest _ _ _ ih => exact ih.trans (List.suffix_cons lexeme rest)
  | case4 _ lexeme rest _ _ _ _ ih => exact ih.trans (List.suffix_cons lexeme rest)
  | case5 _ lexeme rest _ _ _ _ ih => exact ih.trans (List.suffix_cons lexeme rest)

/-- Whatever is skipped is taken. -/
theorem consumes_synchronize (stop : List TokenKind) :
    (synchronize stop).Consumes fun _ => True := by
  intro finish given
  obtain ⟨used, hgiven⟩ := suffix_skipTo stop 0 given
  exact ⟨used, hgiven.symm, fun _ _ _ _ _ => trivial⟩

/-- What is skipped behind an error need not have `P`, since the error is recorded. -/
theorem Consumes.orRecover {p : Parse α} {recover : Parse PUnit} (h : p.Consumes P)
    (hrecover : recover.Consumes fun _ => True) : (p.orRecover recover).Consumes P := by
  intro finish given
  have hreply := h finish given
  unfold Parse.orRecover
  split
  case h_1 a rest recorded hle heq =>
    rw [heq] at hreply
    obtain ⟨used, hgiven, hused⟩ := hreply
    exact ⟨used, hgiven, fun _ _ hr => hused a rest (by simpa using hr.2.2)⟩
  case h_2 e rest recorded hle heq =>
    rw [heq] at hreply
    obtain ⟨used, hgiven, -⟩ := hreply
    obtain ⟨used', hrest, -⟩ := hrecover finish rest
    exact ⟨used ++ used', by simpa [← hrest] using hgiven, by simp⟩

/-! ## Repetition -/

section

variable {σ : Type} {turn : σ → Parse (Turn σ α)} {loop : Loop σ α}

/-- A loop takes what its turns take. -/
theorem consumes_of_turns (h : loop.Turns finish turn) (hprogress : Progresses finish turn)
    (hturn : ∀ s given, Reply.Consumes P (turn s finish given)) (s : σ) (given : List Lexeme) :
    (loop s given).Consumes P := by
  rw [h s given]
  refine (hturn s given).andThen fun t rest hle hgets => ?_
  cases t with
  | done a => exact Reply.consumes_ok a
  | again s' =>
    have hlt := (hprogress s given s' rest hgets).2
    exact consumes_of_turns h hprogress hturn s' rest
termination_by given.length

end

theorem progresses_comma {item : Parse α} (hitem : ∀ given, Reply.Consumes P (item finish given)) :
    Progresses finish (commaTurn item) := by
  intro out given out' rest h
  obtain ⟨a, mid, hle, ha, h⟩ := Reply.gets_andThen.1 h
  obtain ⟨more, mid', hle', hmore, h⟩ := Reply.gets_andThen.1 h
  have hmid : mid <:+ given := ha.2 ▸ (hitem given).suffix
  cases mid with
  | nil =>
    rw [eat_nil (by decide), Reply.gets_ok] at hmore
    obtain ⟨rfl, rfl⟩ := hmore
    simp [pure_apply] at h
  | cons comma mid =>
    rw [eat_cons] at hmore
    split at hmore
    case isTrue =>
      obtain ⟨rfl, rfl⟩ := Reply.gets_ok.1 (Reply.gets_taking.1 hmore)
      obtain ⟨-, rfl⟩ := Reply.gets_ok.1 h
      exact ⟨(List.suffix_cons comma mid).trans hmid, hmid.length_le⟩
    case isFalse =>
      obtain ⟨rfl, rfl⟩ := Reply.gets_ok.1 hmore
      simp [pure_apply] at h

theorem progresses_many {more : TokenKind → Bool} {item : Token → Parse α} {recover : Parse PUnit}
    (hitem : ∀ token, (item token).Consumes P) (hrecover : recover.Consumes fun _ => True) :
    Progresses finish (manyTurn more item recover) := by
  intro out given out' rest h
  cases given with
  | nil => simp [manyTurn, peek?, bind_apply, pure_apply] at h
  | cons lexeme given =>
    have hsuffix := ((hitem lexeme.token).orRecover hrecover finish given).suffix
    simp only [manyTurn, peek?, bind_apply, List.head?_cons, Option.map_some, Reply.ok_andThen] at h
    split at h
    case isFalse => simp [pure_apply] at h
    case isTrue =>
      rw [bind_apply, advance_cons, Reply.taking_andThen, Reply.ok_andThen, Reply.gets_taking,
        bind_apply, Reply.gets_andThen] at h
      obtain ⟨a?, mid, hle, ⟨-, rfl⟩, h⟩ := h
      obtain ⟨-, rfl⟩ := Reply.gets_ok.1 h
      exact ⟨hsuffix.trans (List.suffix_cons lexeme given), Nat.lt_succ_of_le hle⟩

/-- The first token of an item has `P` where the item is read without errors. -/
theorem consumes_many {more : TokenKind → Bool} {item : Token → Parse α} {recover : Parse PUnit}
    (hitem : ∀ token, (item token).Consumes P) (hrecover : recover.Consumes fun _ => True)
    (hfirst : ∀ lexeme finish given a rest, more lexeme.token.kind = true →
      (item lexeme.token).Yields finish given a rest → P lexeme) :
    (many more item recover).Consumes P := by
  intro finish given
  refine consumes_of_turns (turns_many finish more item recover)
    (progresses_many hitem hrecover) ?_ [] given
  intro out given
  cases given with
  | nil => exact Reply.consumes_ok _
  | cons lexeme given =>
    have hreply := (hitem lexeme.token).orRecover hrecover finish given
    simp only [manyTurn, peek?, bind_apply, List.head?_cons, Option.map_some, Reply.ok_andThen]
    split
    case isFalse => exact Reply.consumes_ok _
    case isTrue hmore =>
      rw [bind_apply, advance_cons, Reply.taking_andThen, Reply.ok_andThen, bind_apply]
      refine (hreply.andThen fun a? rest hle _ => Reply.consumes_ok _).taking fun t rest ht => ?_
      obtain ⟨a?, mid, hle, ha, -⟩ := Reply.yields_andThen.1 ht
      obtain ⟨a, -, ha⟩ := yields_orRecover.1 ha
      exact hfirst lexeme finish given a mid hmore ha

end Parse

namespace Grammar

open Parse

/-- No hole of the lexeme has an error, if it is an interpolated string. -/
def Clean (g : Grammar) (lexeme : Lexeme) : Prop :=
  lexeme.token.kind = .interpolatedString → (g.interpolate lexeme.token).errors = []

theorem clean_of_kind {g : Grammar} {kind : TokenKind} (hkind : kind ≠ .interpolatedString)
    {lexeme : Lexeme} (h : lexeme.token.kind = kind) : g.Clean lexeme :=
  fun hinterpolated => absurd (h.symm.trans hinterpolated) hkind

/-! ## Expressions -/

section

variable {g : Grammar}

theorem clean_of_atom? {lexeme : Lexeme} {e : Expr}
    (h : g.atom? lexeme.token = some (.ok (e, []))) : g.Clean lexeme := by
  intro hkind
  rw [(atom?_interpolated hkind).2] at h
  simp only [Option.some.injEq, Except.ok.injEq, Prod.mk.injEq] at h
  exact h.2

theorem consumes_expectClean {kind : TokenKind} (heof : kind ≠ .eof)
    (hkind : kind ≠ .interpolatedString) : (expect kind).Consumes g.Clean :=
  consumes_expect (fun _ => clean_of_kind hkind) heof

theorem consumes_identClean : ident.Consumes g.Clean :=
  consumes_ident fun _ => clean_of_kind (by decide)

mutual

theorem consumes_expr (g : Grammar) (min : Nat) (given : List Lexeme) :
    (g.expr min given).Consumes g.Clean := by
  rw [expr]
  exact (consumes_operand g given).andThen fun lhs rest _ _ => consumes_climb g min lhs rest
termination_by 5 * given.length + 2

theorem consumes_operand (g : Grammar) (given : List Lexeme) :
    (g.operand given).Consumes g.Clean := by
  cases given with
  | nil =>
    rw [operand]
    exact Reply.consumes_fail _
  | cons lexeme given =>
    rw [operand]
    split
    case h_1 op hop =>
      refine ((consumes_expr g _ given).andThen fun e _ _ _ => Reply.consumes_ok _).taking
        fun _ _ _ => ?_
      exact clean_of_kind (by cases op <;> decide) (UnaryOp.mark_of_ofToken? hop)
    case h_2 =>
      split
      case h_1 e errors hatom =>
        refine ((Reply.consumes_ok e).recording errors).taking fun _ _ h => ?_
        obtain ⟨rfl, -⟩ := Reply.yields_recording.1 h
        exact clean_of_atom? hatom
      case h_2 => exact (Reply.consumes_fail _).taking fun _ _ h => absurd h Reply.yields_fail
      case h_3 =>
        split
        case isTrue hparen =>
          refine ((consumes_expr g 0 given).andThen fun e rest _ _ => ?_).taking
            fun _ _ _ => clean_of_kind (by decide) hparen
          exact (consumes_expectClean (by decide) (by decide) _ rest).andThen
            fun _ _ _ _ => Reply.consumes_ok _
        case isFalse => exact Reply.consumes_fail _
termination_by 5 * given.length + 1

theorem consumes_climb (g : Grammar) (min : Nat) (lhs : Expr) (given : List Lexeme) :
    (g.climb min lhs given).Consumes g.Clean := by
  cases given with
  | nil =>
    rw [climb]
    exact Reply.consumes_ok lhs
  | cons lexeme given =>
    rw [climb]
    dsimp only
    split
    case isTrue hdot =>
      split
      · exact Reply.consumes_ok lhs
      refine ((consumes_identClean g.finish given).andThen fun field rest hle _ => ?_).taking
        fun _ _ _ => clean_of_kind (by decide) hdot
      exact (consumes_arguments? g rest).andThen fun call rest' hle' _ =>
        consumes_climb g min _ rest'
    split
    case isTrue hquestion =>
      split
      · exact Reply.consumes_ok lhs
      refine ((consumes_expr g 0 given).andThen fun whenTrue rest hle _ => ?_).taking
        fun _ _ _ => clean_of_kind (by decide) hquestion
      refine (consumes_expectClean (by decide) (by decide) _ rest).andThen fun _ rest' hle' _ => ?_
      exact (consumes_expr g ternaryPower rest').andThen fun whenFalse rest'' hle'' _ =>
        consumes_climb g min _ rest''
    split
    case h_1 => exact Reply.consumes_ok lhs
    case h_2 op hop =>
      split
      · exact Reply.consumes_ok lhs
      refine ((consumes_expr g _ given).andThen fun rhs rest hle _ => ?_).taking fun _ _ _ => ?_
      · exact consumes_climb g min _ rest
      · exact clean_of_kind (by cases op <;> decide) (BinaryOp.mark_of_ofToken? hop)
termination_by 5 * given.length + 1
decreasing_by all_goals subst_vars; simp only [List.length_cons]; omega

theorem consumes_arguments? (g : Grammar) (given : List Lexeme) :
    (g.arguments? given).Consumes g.Clean := by
  cases given with
  | nil =>
    rw [arguments?]
    exact Reply.consumes_ok _
  | cons opening given =>
    rw [arguments?]
    split
    case isTrue hparen =>
      refine ((consumes_arguments g given).andThen fun args rest _ _ => ?_).taking
        fun _ _ _ => clean_of_kind (by decide) hparen
      exact (consumes_expectClean (by decide) (by decide) _ rest).andThen
        fun _ _ _ _ => Reply.consumes_ok _
    case isFalse => exact Reply.consumes_ok _
termination_by 5 * given.length

theorem consumes_arguments (g : Grammar) (given : List Lexeme) :
    (g.arguments given).Consumes g.Clean := by
  rw [arguments]
  split
  · exact Reply.consumes_ok _
  · exact consumes_argumentsOnto g [] given
termination_by 5 * given.length + 4

theorem consumes_argumentsOnto (g : Grammar) (out : List Expr) (given : List Lexeme) :
    (g.argumentsOnto out given).Consumes g.Clean := by
  rw [argumentsOnto]
  refine (consumes_expr g 0 given).andThen fun arg rest hle _ => ?_
  cases rest with
  | nil => exact Reply.consumes_ok _
  | cons lexeme rest =>
    dsimp only
    split
    case isTrue hcomma =>
      exact (consumes_argumentsOnto g (arg :: out) rest).taking
        fun _ _ _ => clean_of_kind (by decide) hcomma
    case isFalse => exact Reply.consumes_ok _
termination_by 5 * given.length + 3

end

/-! ## Names and types -/

theorem progresses_segments (finish : Place) : Progresses finish segmentTurn := by
  intro out given out' rest h
  cases given with
  | nil =>
    rw [segmentTurn, bind_apply, eat_nil (by decide), Reply.ok_andThen] at h
    simp [pure_apply] at h
  | cons lexeme given =>
    rw [segmentTurn, bind_apply, eat_cons] at h
    split at h
    case isTrue =>
      rw [Reply.taking_andThen, Reply.ok_andThen, Reply.gets_taking] at h
      obtain ⟨x, mid, hle, hx, h⟩ := Reply.gets_andThen.1 h
      obtain ⟨-, rfl⟩ := Reply.gets_ok.1 h
      have hsuffix := (consumes_ident (P := fun _ => True) (fun _ _ => trivial) finish given).suffix
      rw [hx.2] at hsuffix
      exact ⟨hsuffix.trans (List.suffix_cons lexeme given), Nat.lt_succ_of_le hle⟩
    case isFalse => simp [pure_apply] at h

theorem consumes_path : path.Consumes g.Clean := by
  refine consumes_identClean.bind fun first => ?_
  have hturn : ∀ out, (segmentTurn out).Consumes g.Clean := by
    intro out
    refine (consumes_eat (fun _ => clean_of_kind (by decide)) (by decide)).bind fun more => ?_
    split
    · exact consumes_identClean.bind fun _ => consumes_pure _
    · exact consumes_pure _
  have hsegments : Parse.Consumes g.Clean fun finish given => segmentsOnto finish [first] given :=
    fun finish given => consumes_of_turns (turns_segments finish) (progresses_segments finish)
      (fun out given => hturn out finish given) [first] given
  exact hsegments.bind fun _ => consumes_pure _

mutual

theorem consumes_typeRef (g : Grammar) (finish : Place) (given : List Lexeme) :
    (typeRef finish given).Consumes g.Clean := by
  rw [typeRef]
  split
  · exact Reply.consumes_fail _
  · refine (consumes_path finish given).andThen fun p rest hle _ => ?_
    cases rest with
    | nil => exact Reply.consumes_ok _
    | cons opening rest =>
      dsimp only
      split
      case isTrue hless =>
        refine ((consumes_typeArgsOnto g finish [] rest).andThen fun args rest' _ _ => ?_).taking
          fun _ _ _ => clean_of_kind (by decide) hless
        exact (consumes_expectClean (by decide) (by decide) _ rest').andThen
          fun _ _ _ _ => Reply.consumes_ok _
      case isFalse => exact Reply.consumes_ok _
termination_by 2 * given.length
decreasing_by all_goals subst_vars; simp only [List.length_cons] at *; omega

theorem consumes_typeArgsOnto (g : Grammar) (finish : Place) (out : List TypeRef)
    (given : List Lexeme) : (typeArgsOnto finish out given).Consumes g.Clean := by
  rw [typeArgsOnto]
  refine (consumes_typeRef g finish given).andThen fun arg rest hle _ => ?_
  cases rest with
  | nil => exact Reply.consumes_ok _
  | cons lexeme rest =>
    dsimp only
    split
    case isTrue hcomma =>
      exact (consumes_typeArgsOnto g finish (arg :: out) rest).taking
        fun _ _ _ => clean_of_kind (by decide) hcomma
    case isFalse => exact Reply.consumes_ok _
termination_by 2 * given.length + 1
decreasing_by all_goals subst_vars; simp only [List.length_cons] at *; omega

end

theorem consumes_typeRefParser :
    Parse.Consumes g.Clean fun finish given => typeRef finish given :=
  consumes_typeRef g

/-! ## Statements -/

theorem consumes_value : g.value.Consumes g.Clean := fun _ given => consumes_expr g 0 given

theorem consumes_statement (token : Token) : (g.statement token).Consumes g.Clean := by
  unfold statement
  split
  · refine consumes_identClean.bind fun name => ?_
    refine (consumes_expectClean (by decide) (by decide)).bind fun _ => ?_
    refine consumes_value.bind fun e => ?_
    exact (consumes_expectClean (by decide) (by decide)).bind fun close => consumes_pure _
  · refine consumes_value.bind fun e => ?_
    exact (consumes_expectClean (by decide) (by decide)).bind fun close => consumes_pure _
  · exact consumes_fail _

/-- Recovery that takes one more token, if it is of the given kind. -/
theorem consumes_synchronize_eat (stop : List TokenKind) {kind : TokenKind} (heof : kind ≠ .eof) :
    Parse.Consumes (fun _ => True) (do synchronize stop; let _ ← eat kind) :=
  (consumes_synchronize stop).bind fun _ =>
    (consumes_eat (fun _ _ => trivial) heof).bind fun _ => consumes_pure _

theorem clean_of_statement (lexeme : Lexeme) {finish : Place} {given rest : List Lexeme} {s : Stmt}
    (h : (g.statement lexeme.token).Yields finish given s rest) : g.Clean lexeme := by
  intro hkind
  rw [statement, hkind] at h
  exact absurd h yields_fail

theorem consumes_block : g.block.Consumes g.Clean := by
  refine (consumes_expectClean (by decide) (by decide)).bind fun opening => ?_
  refine (consumes_many consumes_statement (consumes_synchronize_eat _ (by decide))
    fun lexeme _ _ _ _ _ => clean_of_statement lexeme).bind fun stmts => ?_
  exact (consumes_expectClean (by decide) (by decide)).bind fun close => consumes_pure _

/-! ## Declarations -/

theorem consumes_declaration {α : Type} {kind : TokenKind} {body : Token → Parse α}
    (hbody : ∀ token, (body token).Consumes g.Clean) (token : Token) :
    (declaration kind body token).Consumes g.Clean := by
  unfold declaration
  split
  · exact hbody token
  · exact consumes_fail _

/-- A declaration starts with its keyword. -/
theorem clean_of_declaration {α : Type} {kind : TokenKind} {body : Token → Parse α}
    {finish : Place} {given rest : List Lexeme} {a : α} (hkind : kind ≠ .interpolatedString)
    (lexeme : Lexeme) (h : (declaration kind body lexeme.token).Yields finish given a rest) :
    g.Clean lexeme :=
  clean_of_kind hkind (yields_declaration.1 h).1

theorem consumes_param : param.Consumes g.Clean := by
  refine consumes_identClean.bind fun name => ?_
  refine (consumes_expectClean (by decide) (by decide)).bind fun _ => ?_
  exact consumes_typeRefParser.bind fun type => consumes_pure _

theorem consumes_params : params.Consumes g.Clean := by
  intro finish given
  unfold params
  split
  · exact Reply.consumes_ok _
  · have hparam : ∀ given, Reply.Consumes g.Clean (param finish given) := consumes_param finish
    refine consumes_of_turns (turns_params finish) (progresses_comma hparam) (fun out given => ?_)
      [] given
    refine (consumes_param.bind fun p => ?_) finish given
    refine (consumes_eat (fun _ => clean_of_kind (by decide)) (by decide)).bind fun more => ?_
    split <;> exact consumes_pure _

theorem consumes_functionDecl (start : Token) : (g.functionDecl start).Consumes g.Clean := by
  refine consumes_identClean.bind fun name => ?_
  refine (consumes_expectClean (by decide) (by decide)).bind fun _ => ?_
  refine consumes_params.bind fun params => ?_
  refine (consumes_expectClean (by decide) (by decide)).bind fun _ => ?_
  refine (consumes_expectClean (by decide) (by decide)).bind fun _ => ?_
  refine consumes_typeRefParser.bind fun result => ?_
  exact consumes_block.bind fun body => consumes_pure _

/-- A name with declarations between braces. -/
theorem consumes_braced {α β : Type} {kind : TokenKind} {body : Token → Parse α}
    {stop : List TokenKind} {build : Ident → List α → Token → β}
    (hbody : ∀ token, (body token).Consumes g.Clean) (hkind : kind ≠ .interpolatedString) :
    Parse.Consumes g.Clean (do
      let name ← ident
      let _ ← expect .leftBrace
      let items ← many (· != .rightBrace) (declaration kind body) (synchronize stop)
      let close ← expect .rightBrace
      return build name items close) := by
  refine consumes_identClean.bind fun name => ?_
  refine (consumes_expectClean (by decide) (by decide)).bind fun _ => ?_
  refine (consumes_many (consumes_declaration hbody) (consumes_synchronize _)
    fun lexeme _ _ _ _ _ => clean_of_declaration hkind lexeme).bind fun items => ?_
  exact (consumes_expectClean (by decide) (by decide)).bind fun close => consumes_pure _

theorem consumes_typeDecl (start : Token) : (g.typeDecl start).Consumes g.Clean :=
  consumes_braced consumes_functionDecl (by decide)

theorem consumes_moduleDecl (start : Token) : (g.moduleDecl start).Consumes g.Clean :=
  consumes_braced consumes_typeDecl (by decide)

/-! ## The unit -/

theorem consumes_headerToken {kind : TokenKind} (heof : kind ≠ .eof)
    (hkind : kind ≠ .interpolatedString) : (headerToken kind).Consumes g.Clean :=
  consumes_take heof (fun _ _ _ h => consumes_advance_cons (clean_of_kind hkind h))
    fun _ => consumes_fail _

theorem consumes_edition (start : Token) : (edition start).Consumes g.Clean := by
  refine (consumes_headerToken (by decide) (by decide)).bind fun _ => ?_
  refine (consumes_headerToken (by decide) (by decide)).bind fun _ => ?_
  have hword : headerWord.Consumes g.Clean := by
    refine consumes_peek.bind fun token => ?_
    split
    · exact consumes_headerToken (by decide) (by decide)
    · exact consumes_fail _
  refine hword.bind fun _ => ?_
  refine (consumes_headerToken (by decide) (by decide)).bind fun _ => ?_
  refine (consumes_headerToken (by decide) (by decide)).bind fun number => ?_
  dsimp only
  split
  · exact consumes_fail _
  · exact (consumes_expectClean (by decide) (by decide)).bind fun close => consumes_pure _

theorem consumes_header : header.Consumes g.Clean := by
  refine consumes_take (by decide) (fun lexeme finish given hkind => ?_) fun _ => consumes_pure _
  exact (consumes_advance_cons (clean_of_kind (by decide) hkind)).andThen fun start rest _ _ =>
    (consumes_edition start).orRecover (consumes_synchronize _) finish rest

theorem consumes_useDecl (start : Token) : (useDecl start).Consumes g.Clean :=
  consumes_path.bind fun p =>
    (consumes_expectClean (by decide) (by decide)).bind fun close => consumes_pure _

theorem consumes_declarations : g.declarations.Consumes g.Clean := by
  refine consumes_header.bind fun e? => ?_
  refine (consumes_many consumes_useDecl (consumes_synchronize_eat _ (by decide))
    fun _ _ _ _ _ hmore _ => clean_of_kind (by decide) (beq_iff_eq.1 hmore)).bind fun uses => ?_
  refine (consumes_many (consumes_declaration consumes_moduleDecl)
    (consumes_synchronize_eat _ (by decide))
    fun lexeme _ _ _ _ _ => clean_of_declaration (by decide) lexeme).bind fun modules => ?_
  exact consumes_pure _

end

end Grammar

end TypedTemplate
