-- SUMMARY: Looking ahead changes neither the tokens that a lexer hands out nor the faults it finds.
import TypedTemplate.Proofs.Token.Read

/-!
# Lookahead

A lexer will hand out the tokens that wait in its queue, then the tokens of the text it has not
read, and then end tokens. Looking ahead moves tokens from the text to the queue, which leaves
what is to come as it was. So every answer is told by the text and by the number of tokens that
were handed out before it.
-/

namespace TypedTemplate

/-- A call on a lexer that gives a token. -/
inductive LexerCall where
  | next
  | peek (n : Nat)
deriving DecidableEq, Repr

namespace LexerCall

/-- How many tokens are before the one that the call gives. -/
def skipped : LexerCall → Nat
  | .next   => 0
  | .peek n => n

/-- How many tokens the call hands out. -/
def taken : LexerCall → Nat
  | .next   => 1
  | .peek _ => 0

end LexerCall

namespace Lexer

/-! ## Calls -/

def call (l : Lexer) : LexerCall → Token × Lexer
  | .next   => l.next
  | .peek n => l.peek n

/-- The tokens that the calls give. -/
def answers (l : Lexer) : List LexerCall → List Token
  | []         => []
  | c :: calls => (l.call c).1 :: (l.call c).2.answers calls

/-- The tokens that the calls hand out. -/
def handedOut (l : Lexer) : List LexerCall → List Token
  | []               => []
  | .next :: calls   => l.next.1 :: l.next.2.handedOut calls
  | .peek n :: calls => (l.peek n).2.handedOut calls

def afterCalls (l : Lexer) : List LexerCall → Lexer
  | []         => l
  | c :: calls => (l.call c).2.afterCalls calls

/-! ## What is to come -/

/-- The text that has not been read, cut into lexemes. -/
def left (l : Lexer) : Lexemes := .ofChars l.cursor.place l.cursor.rest

/-- The token that `n` tokens are before: one that waits, one of the text, or the end token. -/
def upcoming (l : Lexer) (n : Nat) : Token :=
  (l.queue ++ l.left.lexemes.map (·.token))[n]?.getD (.eof l.left.finish)

/-- The faults that were found and those in the text that has not been read. -/
def faults (l : Lexer) : List LexError := l.errors ++ l.left.lexemes.flatMap (·.errors)

/-- An end token waits only when all of the text has been read. -/
def Settled (l : Lexer) : Prop := ∀ t ∈ l.queue, t.kind = .eof → l.left.lexemes = []

variable {l l' : Lexer} {t : Token}

/-! ## Reading one token -/

/-- What reading a token gives: the token of the next lexeme, or the end token if there is none. -/
inductive Scans (l : Lexer) : (t : Token) → (l' : Lexer) → Prop where
  | token {lexeme : Lexeme} {l' : Lexer} :
      l.left.lexemes = lexeme :: l'.left.lexemes → lexeme.token.kind ≠ .eof →
        l'.left.finish = l.left.finish → l'.queue = l.queue →
          l'.errors = l.errors ++ lexeme.errors → Scans l lexeme.token l'
  | finish {l' : Lexer} :
      l.left.lexemes = [] → l'.left.lexemes = [] → l'.left.finish = l.left.finish →
        l'.queue = l.queue → l'.errors = l.errors → Scans l (.eof l.left.finish) l'

theorem scans_of_nil {skipped : List Char}
    (h : skipTrivia false [] l.cursor.rest = (skipped, [])) : l.Scans l.scan.1 l.scan.2 := by
  have happend := append_skipTrivia false [] l.cursor.rest
  rw [h] at happend
  obtain ⟨-, hrest, hplace⟩ := l.cursor.skip_append happend.symm
  have hskipped : l.cursor.rest = skipped := by simpa using happend.symm
  have hfinish : l.left.finish = l.cursor.place.after skipped := by
    rw [left, Lexemes.finish_ofChars, hskipped]
  have hscan : l.scan =
      (.eof l.left.finish, { l with cursor := l.cursor.skip skipped.length }) := by
    simp only [scan, h, hrest, hplace, hfinish]
  rw [hscan]
  refine .finish (Lexemes.lexemes_of_nil h) ?_ ?_ rfl rfl
  · simp only [left, hrest]
    exact Lexemes.lexemes_of_nil rfl
  · rw [hfinish]
    simp only [left, hrest, hplace, Lexemes.finish_ofChars, Place.after_nil]

theorem scans_of_cons {skipped rest : List Char} {c : Char}
    (h : skipTrivia false [] l.cursor.rest = (skipped, c :: rest)) :
    l.Scans l.scan.1 l.scan.2 := by
  have happend := append_skipTrivia false [] l.cursor.rest
  rw [h] at happend
  obtain ⟨-, hrest, hplace⟩ := l.cursor.skip_append happend.symm
  have hcut := append_scanToken (l.cursor.place.after skipped) c rest
  have hkind := (whole_scanToken (l.cursor.place.after skipped) c rest).1
  have hlexemes : l.left.lexemes = _ := Lexemes.lexemes_of_cons h
  cases hs : scanToken (l.cursor.place.after skipped) c rest with
  | mk lexeme behind =>
    simp only [hs] at hcut hkind hlexemes
    obtain ⟨-, hrest', hplace'⟩ :=
      (l.cursor.skip skipped.length).skip_append (hrest.trans hcut.symm)
    have hscan : l.scan = (lexeme.token,
        { l with
          cursor := (l.cursor.skip skipped.length).skip lexeme.stretch.length
          errors := l.errors ++ lexeme.errors }) := by
      simp only [scan, h, hrest, hplace, hs]
    rw [hscan]
    refine @Scans.token l { lexeme with skipped } _ ?_ hkind ?_ rfl rfl
    · simp only [left, hrest', hplace', hplace]
      exact hlexemes
    · have htext : skipped ++ lexeme.stretch ++ behind = l.cursor.rest := by
        rw [List.append_assoc, hcut]
        exact happend
      simp only [left, hrest', hplace', hplace, Lexemes.finish_ofChars, ← Place.after_append, htext]

theorem scans_scan (l : Lexer) : l.Scans l.scan.1 l.scan.2 := by
  cases h : skipTrivia false [] l.cursor.rest with
  | mk skipped rest =>
    cases rest with
    | nil => exact scans_of_nil h
    | cons c rest => exact scans_of_cons h

namespace Scans

theorem queue (h : l.Scans t l') : l'.queue = l.queue := by
  cases h <;> assumption

theorem faults (h : l.Scans t l') : l'.faults = l.faults := by
  cases h with
  | token hleft _ _ _ herrors => simp [Lexer.faults, hleft, herrors]
  | finish hleft hleft' _ _ herrors => simp [Lexer.faults, hleft, hleft', herrors]

theorem left_nil (h : l.Scans t l') (hleft : l.left.lexemes = []) : l'.left.lexemes = [] := by
  cases h with
  | token hleft' => exact absurd (hleft.symm.trans hleft') (List.cons_ne_nil _ _).symm
  | finish _ hleft' => exact hleft'

theorem left_nil_of_eof (h : l.Scans t l') (hkind : t.kind = .eof) : l'.left.lexemes = [] := by
  cases h with
  | token _ hkind' => exact absurd hkind hkind'
  | finish _ hleft' => exact hleft'

end Scans

/-- Where no token waits, the token that is read is the one that is to come. -/
theorem Scans.upcoming (h : l.Scans t l') (hqueue : l.queue = []) :
    t = l.upcoming 0 ∧ ∀ n, l'.upcoming n = l.upcoming (n + 1) := by
  cases h with
  | token hleft _ hfinish hqueue' =>
    simp [Lexer.upcoming, hqueue, hqueue', hleft, hfinish]
  | finish hleft hleft' hfinish hqueue' =>
    simp [Lexer.upcoming, hqueue, hqueue', hleft, hleft', hfinish]

/-! ## Reading into the queue -/

/-- The lexer `l'` is `l` after more tokens have been read into the queue. -/
structure Fills (l l' : Lexer) : Prop where
  upcoming : ∀ n, l'.upcoming n = l.upcoming n
  faults : l'.faults = l.faults
  settled : l.Settled → l'.Settled
  left_nil : l.left.lexemes = [] → l'.left.lexemes = []

theorem Fills.trans {l'' : Lexer} (h : l.Fills l') (h' : l'.Fills l'') : l.Fills l'' where
  upcoming n := (h'.upcoming n).trans (h.upcoming n)
  faults := h'.faults.trans h.faults
  settled := h'.settled ∘ h.settled
  left_nil := h'.left_nil ∘ h.left_nil

theorem Scans.fills (h : l.Scans t l') : l.Fills { l' with queue := l'.queue ++ [t] } where
  upcoming n := by
    have hleft (queue : List Token) : ({ l' with queue } : Lexer).left = l'.left := rfl
    cases h with
    | token hcons _ hfinish hqueue =>
      simp [Lexer.upcoming, hleft, hcons, hfinish, hqueue]
    | finish hnil hnil' hfinish hqueue =>
      -- One more end token changes nothing: that is what is given behind the last token.
      simp only [Lexer.upcoming, hleft, hnil, hnil', hfinish, hqueue, List.map_nil, List.append_nil]
      rcases Nat.lt_or_ge n l.queue.length with hlt | hge
      · rw [List.getElem?_append_left hlt]
      · rw [List.getElem?_append_right hge, List.getElem?_eq_none hge]
        cases n - l.queue.length <;> rfl
  faults := h.faults
  settled hl t' ht' hkind := by
    rcases List.mem_append.1 ht' with ht' | ht'
    · exact h.left_nil (hl t' (h.queue ▸ ht') hkind)
    · exact h.left_nil_of_eof (List.mem_singleton.1 ht' ▸ hkind)
  left_nil := h.left_nil

theorem fills_fill (l : Lexer) (count : Nat) :
    l.Fills (l.fill count) ∧ (l.fill count).queue.length = l.queue.length + count := by
  induction count generalizing l with
  | zero => exact ⟨⟨fun _ => rfl, rfl, id, id⟩, rfl⟩
  | succ count ih =>
    have hscan := scans_scan l
    obtain ⟨hfills, hlength⟩ := ih { l.scan.2 with queue := l.scan.2.queue ++ [l.scan.1] }
    refine ⟨hscan.fills.trans hfills, hlength.trans ?_⟩
    rw [List.length_append, hscan.queue, List.length_singleton]
    omega

/-! ## One call -/

/-- What a call does: it gives the token that is to come so far ahead, and what it does not hand out
is still to come. An end token is given only when all of the text has been read. -/
structure Serves (l : Lexer) (c : LexerCall) : Prop where
  answer : (l.call c).1 = l.upcoming c.skipped
  upcoming : ∀ n, (l.call c).2.upcoming n = l.upcoming (c.taken + n)
  faults : (l.call c).2.faults = l.faults
  settled : (l.call c).2.Settled
  left_nil : l.left.lexemes = [] → (l.call c).2.left.lexemes = []
  left_nil_of_eof : (l.call c).1.kind = .eof → (l.call c).2.left.lexemes = []

theorem Settled.serves_next (hl : l.Settled) : l.Serves .next := by
  cases hqueue : l.queue with
  | nil =>
    have hnext : l.call .next = l.scan := by simp [call, next, hqueue]
    have hscan : l.Scans (l.call .next).1 (l.call .next).2 := by
      rw [hnext]
      exact scans_scan l
    obtain ⟨hanswer, hupcoming⟩ := hscan.upcoming hqueue
    exact ⟨hanswer, fun n => (hupcoming n).trans (congrArg _ (Nat.add_comm n 1)), hscan.faults,
      fun t ht => by simp [hscan.queue, hqueue] at ht, hscan.left_nil, hscan.left_nil_of_eof⟩
  | cons t queue =>
    have hnext : l.call .next = (t, { l with queue }) := by simp [call, next, hqueue]
    have hleft : ({ l with queue } : Lexer).left = l.left := rfl
    refine ⟨?_, fun n => ?_, ?_, ?_, ?_, ?_⟩
    · simp [hnext, Lexer.upcoming, hqueue, LexerCall.skipped]
    · simp [hnext, Lexer.upcoming, hqueue, hleft, LexerCall.taken, Nat.add_comm 1 n]
    · rw [hnext]
      rfl
    · rw [hnext]
      exact fun t' ht' => hl t' (hqueue ▸ List.mem_cons_of_mem t ht')
    · rw [hnext]
      exact id
    · rw [hnext]
      exact hl t (hqueue ▸ List.mem_cons_self)

theorem Settled.serves_peek (hl : l.Settled) (n : Nat) : l.Serves (.peek n) := by
  obtain ⟨hfills, hlength⟩ := fills_fill l (n + 1 - l.queue.length)
  have hlt : n < (l.call (.peek n)).2.queue.length := by
    change n < (l.fill (n + 1 - l.queue.length)).queue.length
    omega
  have hget : (l.call (.peek n)).1 = (l.call (.peek n)).2.queue[n] := by
    change (l.call (.peek n)).2.queue.getD n _ = _
    rw [List.getD_eq_getElem?_getD, List.getElem?_eq_getElem hlt]
    rfl
  have hanswer : (l.call (.peek n)).1 = (l.call (.peek n)).2.upcoming n := by
    rw [hget, Lexer.upcoming, List.getElem?_append_left hlt, List.getElem?_eq_getElem hlt]
    rfl
  have hsettled : (l.call (.peek n)).2.Settled := hfills.settled hl
  exact ⟨hanswer.trans (hfills.upcoming n),
    fun m => (hfills.upcoming m).trans (congrArg _ (Nat.zero_add m).symm), hfills.faults, hsettled,
    hfills.left_nil, hsettled _ (hget ▸ List.getElem_mem hlt)⟩

theorem Settled.serves (hl : l.Settled) : (c : LexerCall) → l.Serves c
  | .next   => hl.serves_next
  | .peek n => hl.serves_peek n

/-! ## Any calls -/

/-- How many tokens of the text are before the one that each call gives, when `handed` have been
handed out. -/
def positions (handed : Nat) : List LexerCall → List Nat
  | []         => []
  | c :: calls => (handed + c.skipped) :: positions (handed + c.taken) calls

theorem le_of_mem_positions {handed n : Nat} {calls : List LexerCall}
    (h : n ∈ positions handed calls) : handed ≤ n := by
  induction calls generalizing handed with
  | nil => simp [positions] at h
  | cons c calls ih =>
    rcases List.mem_cons.1 h with rfl | h
    · exact Nat.le_add_right _ _
    · exact Nat.le_trans (Nat.le_add_right _ _) (ih h)

section

variable {u : Nat → Token} {handed : Nat} (calls : List LexerCall)

theorem Serves.upcoming_eq {c : LexerCall} (h : l.Serves c)
    (hu : ∀ n, l.upcoming n = u (handed + n)) (n : Nat) :
    (l.call c).2.upcoming n = u (handed + c.taken + n) := by
  rw [h.upcoming, hu, Nat.add_assoc]

theorem answers_eq (hl : l.Settled) (hu : ∀ n, l.upcoming n = u (handed + n)) :
    l.answers calls = (positions handed calls).map u := by
  induction calls generalizing l handed with
  | nil => rfl
  | cons c calls ih =>
    have hserves := hl.serves c
    rw [answers, positions, List.map_cons, hserves.answer, hu,
      ih hserves.settled (hserves.upcoming_eq hu)]

theorem handedOut_eq (hl : l.Settled) (hu : ∀ n, l.upcoming n = u (handed + n)) :
    l.handedOut calls = (List.range' handed (calls.count .next)).map u := by
  induction calls generalizing l handed with
  | nil => rfl
  | cons c calls ih =>
    have hserves := hl.serves c
    have htail := ih hserves.settled (hserves.upcoming_eq hu)
    cases c with
    | next =>
      have hanswer : l.next.1 = u handed := hserves.answer.trans (hu 0)
      rw [List.count_cons_self, List.range'_succ, List.map_cons, ← hanswer, handedOut]
      exact congrArg _ htail
    | peek n =>
      rw [List.count_cons_of_ne (by simp)]
      exact htail

theorem settled_afterCalls (hl : l.Settled) : (l.afterCalls calls).Settled := by
  induction calls generalizing l with
  | nil => exact hl
  | cons c calls ih => exact ih (hl.serves c).settled

theorem upcoming_afterCalls (hl : l.Settled) (hu : ∀ n, l.upcoming n = u (handed + n)) :
    ∀ n, (l.afterCalls calls).upcoming n = u (handed + calls.count .next + n) := by
  induction calls generalizing l handed with
  | nil => exact hu
  | cons c calls ih =>
    have hserves := hl.serves c
    have htail := ih hserves.settled (hserves.upcoming_eq hu)
    have hcount : (c :: calls).count .next = c.taken + calls.count .next := by
      cases c <;> simp [LexerCall.taken, Nat.add_comm]
    rw [hcount, ← Nat.add_assoc]
    exact htail

theorem faults_afterCalls (hl : l.Settled) : (l.afterCalls calls).faults = l.faults := by
  induction calls generalizing l with
  | nil => rfl
  | cons c calls ih => exact (ih (hl.serves c).settled).trans (hl.serves c).faults

theorem left_nil_afterCalls (hl : l.Settled) (hleft : l.left.lexemes = []) :
    (l.afterCalls calls).left.lexemes = [] := by
  induction calls generalizing l with
  | nil => exact hleft
  | cons c calls ih => exact ih (hl.serves c).settled ((hl.serves c).left_nil hleft)

/-- Once the end token has been given, all of the text has been read. -/
theorem left_nil_of_mem_answers (hl : l.Settled) (ht : t ∈ l.answers calls)
    (hkind : t.kind = .eof) : (l.afterCalls calls).left.lexemes = [] := by
  induction calls generalizing l with
  | nil => exact absurd ht List.not_mem_nil
  | cons c calls ih =>
    rcases List.mem_cons.1 ht with rfl | ht
    · have hserves := hl.serves c
      exact left_nil_afterCalls calls hserves.settled (hserves.left_nil_of_eof hkind)
    · exact ih (hl.serves c).settled ht

end

/-! ## Whole texts -/

section

variable (place : Place) (text : List Char)

theorem settled_start : (start place text).Settled := fun _ ht => absurd ht List.not_mem_nil

theorem faults_start :
    (start place text).faults = (Lexemes.ofChars place text).lexemes.flatMap (·.errors) :=
  List.nil_append _

/-- Behind an end token there are only end tokens, all at the end of the text. -/
theorem upcoming_start_of_eof {m n : Nat} (hkind : ((start place text).upcoming m).kind = .eof)
    (hle : m ≤ n) : (start place text).upcoming n = (start place text).upcoming m := by
  have hkinds : ∀ lexeme ∈ (Lexemes.ofChars place text).lexemes, lexeme.token.kind ≠ .eof :=
    Lexemes.forall_mem_ofChars (fun _ _ _ _ => (whole_scanToken _ _ _).1) place text
  have hupcoming (k : Nat) : (start place text).upcoming k =
      (((Lexemes.ofChars place text).lexemes.map (·.token))[k]?).getD
        (.eof (Lexemes.ofChars place text).finish) := rfl
  have hlength : (Lexemes.ofChars place text).lexemes.length ≤ m := by
    refine Nat.le_of_not_lt fun hlt => ?_
    rw [hupcoming, List.getElem?_map, List.getElem?_eq_getElem hlt] at hkind
    exact hkinds _ (List.getElem_mem hlt) hkind
  rw [hupcoming, hupcoming, List.getElem?_eq_none (by simpa using Nat.le_trans hlength hle),
    List.getElem?_eq_none (by simpa using hlength)]

/-- The tokens handed out are the first of those to come, however many calls look ahead. -/
theorem handedOut_start (calls : List LexerCall) :
    (start place text).handedOut calls =
      (List.range' 0 (calls.count .next)).map (start place text).upcoming :=
  handedOut_eq calls (settled_start place text) fun n => by rw [Nat.zero_add]

/-- After any calls, what is to come is what was to come behind the tokens handed out. -/
theorem upcoming_after (calls : List LexerCall) : ∀ n,
    ((start place text).afterCalls calls).upcoming n =
      (start place text).upcoming (0 + calls.count .next + n) :=
  upcoming_afterCalls calls (settled_start place text) fun n => by rw [Nat.zero_add]

theorem handedOut_peek (calls more : List LexerCall) {n : Nat} (hn : n < more.count .next) :
    let l := (start place text).afterCalls calls
    ((l.peek n).2.handedOut more)[n]? = some (l.peek n).1 := by
  intro l
  have hl : l.Settled := settled_afterCalls calls (settled_start place text)
  have hserves := hl.serves (.peek n)
  have hfrom := upcoming_after place text calls
  change ((l.call (.peek n)).2.handedOut more)[n]? = some (l.call (.peek n)).1
  rw [handedOut_eq more hserves.settled (hserves.upcoming_eq hfrom), hserves.answer, hfrom,
    List.getElem?_map, List.getElem?_range' hn]
  simp [LexerCall.taken, LexerCall.skipped]

theorem answers_of_eof (calls more : List LexerCall) :
    let l := (start place text).afterCalls calls
    l.next.1.kind = .eof → ∀ t ∈ l.next.2.answers more, t = l.next.1 := by
  intro l hkind t ht
  have hl : l.Settled := settled_afterCalls calls (settled_start place text)
  have hserves := hl.serves .next
  have hfrom := upcoming_after place text calls
  have hanswer : l.next.1 = _ := hserves.answer.trans (hfrom 0)
  have htail : l.next.2.answers more = _ :=
    answers_eq more hserves.settled (hserves.upcoming_eq hfrom)
  rw [htail] at ht
  obtain ⟨n, hn, rfl⟩ := List.mem_map.1 ht
  rw [hanswer] at hkind ⊢
  exact upcoming_start_of_eof place text hkind
    (Nat.le_trans (Nat.le_add_right _ _) (le_of_mem_positions hn))

theorem errors_of_eof {calls : List LexerCall}
    (h : ∃ t ∈ (start place text).answers calls, t.kind = .eof) :
    ((start place text).afterCalls calls).errors =
      (Lexemes.ofChars place text).lexemes.flatMap (·.errors) := by
  obtain ⟨t, ht, hkind⟩ := h
  have hstart := settled_start place text
  have hleft := left_nil_of_mem_answers calls hstart ht hkind
  have hfaults := (faults_afterCalls calls hstart).trans (faults_start place text)
  rw [← hfaults, Lexer.faults, hleft, List.flatMap_nil, List.append_nil]

/-- Looking ahead changes nothing. The same tokens are handed out as without it; what is seen `n`
tokens ahead is handed out `n` tokens later; behind the first end token every token is that one; and
once an end token has been given, the faults are those of the text, in order. -/
theorem peek_transparent :
    (∀ calls, (start place text).handedOut calls =
      (start place text).handedOut (calls.filter (· = .next))) ∧
    (∀ calls n more, n < more.count .next →
      let l := (start place text).afterCalls calls
      ((l.peek n).2.handedOut more)[n]? = some (l.peek n).1) ∧
    (∀ calls more, let l := (start place text).afterCalls calls
      l.next.1.kind = .eof → ∀ t ∈ l.next.2.answers more, t = l.next.1) ∧
    ∀ calls, (∃ t ∈ (start place text).answers calls, t.kind = .eof) →
      ((start place text).afterCalls calls).errors =
        (Lexemes.ofChars place text).lexemes.flatMap (·.errors) := by
  refine ⟨fun calls => ?_, fun calls n more => handedOut_peek place text calls more,
    answers_of_eof place text, fun calls => errors_of_eof place text⟩
  rw [handedOut_start, handedOut_start, List.count_filter (by simp)]

end

/-- A look past the end finds the fault of the second token while no token is handed out. -/
theorem peek_transparent_past_end :
    let l := start .first ['a', ' ', '~']
    l.handedOut [.peek 3, .next, .peek 0, .next] = l.handedOut [.next, .next] ∧
      ((l.peek 1).2.handedOut [.next, .peek 2, .next])[1]? = some (l.peek 1).1 ∧
      (∀ t ∈ (l.afterCalls [.next, .next]).next.2.answers [.peek 4, .next],
        t = (l.afterCalls [.next, .next]).next.1) ∧
      (l.afterCalls [.peek 3]).errors =
        (Lexemes.ofChars .first ['a', ' ', '~']).lexemes.flatMap (·.errors) := by
  obtain ⟨hhanded, hpeek, hend, herrors⟩ := peek_transparent .first ['a', ' ', '~']
  exact ⟨hhanded [.peek 3, .next, .peek 0, .next], hpeek [] 1 [.next, .peek 2, .next] (by decide),
    hend [.next, .next] [.peek 4, .next] (by decide), herrors [.peek 3] (by decide)⟩

end Lexer

end TypedTemplate
