-- SUMMARY: A token without faults is scanned alike without what comes behind it.
import TypedTemplate.Proofs.Token.Literal

/-!
# Starts of texts

A scan looks at most at one character behind its token, and goes on only where that makes the token
longer. So where a token is cut off a text, the same token is cut off any start of the text
that holds it.
-/

namespace TypedTemplate

variable {cs more left : List Char}

/-! ## Numbers -/

theorem eq_append_of_append {taken : List Char} (h : taken ++ (left ++ more) = cs ++ more) :
    cs = taken ++ left := by
  rw [← List.append_assoc] at h
  exact (List.append_cancel_right h).symm

theorem splitWhile_of_append {p : Char → Bool}
    (h : (splitWhile p (cs ++ more)).2 = left ++ more) :
    splitWhile p cs = ((splitWhile p (cs ++ more)).1, left) := by
  have happend := append_splitWhile p (cs ++ more)
  have hleft : ∀ c ∈ left.head?, p c = false := by
    have hhead := head_dropWhile p (cs ++ more)
    change (cs ++ more).dropWhile p = _ at h
    rw [h] at hhead
    cases left with
    | nil => simp
    | cons c left => exact hhead
  rw [h] at happend
  have hcs := eq_append_of_append happend
  generalize hw : (splitWhile p (cs ++ more)).1 = w at hcs ⊢
  subst hcs
  refine splitWhile_append (fun c hc => ?_) hleft
  rw [← hw] at hc
  exact List.all_eq_true.1 List.all_takeWhile c hc

theorem scanFraction_digits {d : Char} (hd : d.isDigit = true) (rest : List Char) :
    scanFraction ('.' :: d :: rest) = ('.' :: (splitWhile Char.isDigit (d :: rest)).1,
      (splitWhile Char.isDigit (d :: rest)).2) := by
  simp [scanFraction, hd]

theorem scanFraction_none (h : ∀ d rest, cs = '.' :: d :: rest → d.isDigit = false) :
    scanFraction cs = ([], cs) := by
  unfold scanFraction
  split
  · simp [h _ _ rfl]
  · rfl

theorem scanFraction_of_append (h : (scanFraction (cs ++ more)).2 = left ++ more) :
    scanFraction cs = ((scanFraction (cs ++ more)).1, left) := by
  have hcs := eq_append_of_append (h ▸ append_scanFraction (cs ++ more))
  by_cases hdigits : ∃ d rest, cs ++ more = '.' :: d :: rest ∧ d.isDigit = true
  · obtain ⟨d, rest, heq, hd⟩ := hdigits
    rw [heq, scanFraction_digits hd] at h hcs ⊢
    have hsplit : splitWhile Char.isDigit (d :: rest) =
        (d :: (splitWhile Char.isDigit rest).1, (splitWhile Char.isDigit rest).2) := by
      simp [splitWhile, hd]
    rw [hsplit] at h hcs ⊢
    subst hcs
    have hrest : (splitWhile Char.isDigit rest).1 ++ left ++ more = rest := by simpa using heq
    have hsecond : (splitWhile Char.isDigit ((splitWhile Char.isDigit rest).1 ++ left ++ more)).2 =
        left ++ more := hrest.symm ▸ h
    have hleft := splitWhile_of_append hsecond
    rw [hrest] at hleft
    simp only [List.cons_append]
    rw [scanFraction_digits hd]
    simp [splitWhile, hd] at hleft ⊢
    exact hleft
  · have hnone : ∀ d rest, cs ++ more = '.' :: d :: rest → d.isDigit = false := by
      intro d rest heq
      exact Bool.eq_false_iff.2 fun hd => hdigits ⟨d, rest, heq, hd⟩
    rw [scanFraction_none hnone] at hcs ⊢
    obtain rfl : cs = left := hcs
    refine scanFraction_none fun d rest heq => hnone d (rest ++ more) ?_
    rw [heq]
    rfl

theorem scanSign_of_append (h : (scanSign (cs ++ more)).2 = left ++ more) :
    scanSign cs = ((scanSign (cs ++ more)).1, left) := by
  have hcs := eq_append_of_append (h ▸ append_scanSign (cs ++ more))
  cases cs with
  | nil =>
    obtain ⟨hsign, rfl⟩ := List.append_eq_nil_iff.1 hcs.symm
    rw [hsign]
    rfl
  | cons c cs =>
    unfold scanSign at hcs ⊢
    grind

theorem endNumber_of_ok {taken : List Char} {kind kind' : TokenKind}
    (h : (endNumber taken kind cs).kind = .ok kind') :
    endNumber taken kind cs = ⟨taken, cs, .ok kind⟩ ∧ ∀ c ∈ cs.head?, isWordStart c = false := by
  unfold endNumber at h ⊢
  cases cs with
  | nil => simp
  | cons c cs =>
    simp only at h ⊢
    split at h
    case isTrue => simp at h
    case isFalse hc => simp [hc]

theorem endNumber_of_append {taken : List Char} {kind kind' : TokenKind}
    (h : (endNumber taken kind (cs ++ more)).kind = .ok kind') :
    endNumber taken kind cs = ⟨taken, cs, .ok kind⟩ := by
  obtain ⟨-, hhead⟩ := endNumber_of_ok h
  cases cs with
  | nil => rfl
  | cons c cs =>
    have hc : isWordStart c = false := hhead c rfl
    simp [endNumber, hc]

/-- What an exponent without faults is. -/
theorem scanExponent_of_ok {taken : List Char} {kind kind' : TokenKind} {e : Char}
    (he : e = 'e' ∨ e = 'E') (h : (scanExponent taken kind (e :: cs)).kind = .ok kind') :
    let sign := scanSign cs
    let ds := splitWhile Char.isDigit sign.2
    ds.1 ≠ [] ∧ (endNumber (taken ++ e :: sign.1 ++ ds.1) .floatLiteral ds.2).kind = .ok kind' ∧
      scanExponent taken kind (e :: cs) =
        ⟨taken ++ e :: sign.1 ++ ds.1, ds.2, .ok .floatLiteral⟩ := by
  intro sign ds
  have hexponent : (e == 'e' || e == 'E') = true := by simpa using he
  simp only [scanExponent, hexponent, if_true] at h ⊢
  split at h
  case isTrue => simp at h
  case isFalse hempty =>
    refine ⟨by simpa using hempty, h, ?_⟩
    rw [if_neg hempty]
    exact (endNumber_of_ok h).1

theorem scanExponent_of_append {taken : List Char} {kind kind' : TokenKind}
    (h : (scanExponent taken kind (cs ++ more)).rest = left ++ more)
    (hkind : (scanExponent taken kind (cs ++ more)).kind = .ok kind') :
    scanExponent taken kind cs = { scanExponent taken kind (cs ++ more) with rest := left } := by
  have happend := append_scanExponent taken kind (cs ++ more)
  rw [h, ← List.append_assoc, ← List.append_assoc] at happend
  have htaken := List.append_cancel_right happend
  by_cases hexponent : ∃ e ∈ (cs ++ more).head?, e = 'e' ∨ e = 'E'
  · obtain ⟨e, hhead, he⟩ := hexponent
    obtain ⟨rest, heq⟩ := List.head?_eq_some_iff.1 hhead
    rw [heq] at h hkind htaken ⊢
    obtain ⟨hne, hend, hscan⟩ := scanExponent_of_ok he hkind
    rw [hscan] at h htaken ⊢
    obtain ⟨cs, rfl, rfl⟩ : ∃ cs', cs = e :: cs' ∧ rest = cs' ++ more := by
      cases cs with
      | nil => simp at htaken
      | cons c cs => simp_all
    have hdigits := append_splitWhile Char.isDigit (scanSign (cs ++ more)).2
    dsimp only at h
    rw [h, ← List.append_assoc] at hdigits
    have hsign := scanSign_of_append hdigits.symm
    rw [h] at hend
    rw [← hdigits] at h
    have hsplit := splitWhile_of_append h
    rw [hdigits] at hsplit
    have hexponent : (e == 'e' || e == 'E') = true := by simpa using he
    simp only [scanExponent, hexponent, if_true, hsign, hsplit]
    rw [if_neg (by simpa using hne)]
    exact endNumber_of_append hend
  · have hnone : ∀ cs' : List Char, (∀ e ∈ cs'.head?, ¬ (e = 'e' ∨ e = 'E')) →
        scanExponent taken kind cs' = endNumber taken kind cs' := by
      intro cs' hcs'
      cases cs' with
      | nil => rfl
      | cons e rest =>
        have he : ¬ ((e == 'e' || e == 'E') = true) := by simpa using hcs' e rfl
        simp only [scanExponent, if_neg he]
    have hmore := hnone (cs ++ more) fun e hhead he => hexponent ⟨e, hhead, he⟩
    rw [hmore] at h hkind htaken ⊢
    obtain ⟨hend, -⟩ := endNumber_of_ok hkind
    rw [hend] at htaken ⊢
    obtain rfl : left = cs := List.append_cancel_left htaken
    refine (hnone left fun e hhead he => hexponent ⟨e, ?_, he⟩).trans (endNumber_of_append hkind)
    simp [List.head?_append, Option.mem_def.1 hhead]

theorem prefix_endNumber (taken : List Char) (kind : TokenKind) (cs : List Char) :
    taken <+: (endNumber taken kind cs).taken := by
  unfold endNumber
  split
  · split
    · exact List.prefix_append _ _
    · exact List.prefix_refl _
  · exact List.prefix_refl _

theorem prefix_scanExponent (taken : List Char) (kind : TokenKind) (cs : List Char) :
    taken <+: (scanExponent taken kind cs).taken := by
  unfold scanExponent
  split
  · rename_i e afterE
    have htaken (ds : List Char) : taken <+: taken ++ e :: (scanSign afterE).1 ++ ds := by
      rw [List.append_assoc]
      exact List.prefix_append _ _
    split
    · dsimp only
      split
      · exact htaken _
      · exact (htaken _).trans (prefix_endNumber ..)
    · exact prefix_endNumber ..
  · exact List.prefix_refl _

theorem rest_scanExponent (taken : List Char) (kind : TokenKind) (cs : List Char) :
    (scanExponent taken kind cs).rest <:+ cs := by
  obtain ⟨ds, hds⟩ := prefix_scanExponent taken kind cs
  have happend := append_scanExponent taken kind cs
  rw [← hds, List.append_assoc] at happend
  exact ⟨ds, List.append_cancel_left happend⟩

/-- A number without faults is scanned alike without what comes behind it. -/
theorem scanNumber_of_append {kind : TokenKind} (h : (scanNumber (cs ++ more)).rest = left ++ more)
    (hkind : (scanNumber (cs ++ more)).kind = .ok kind) :
    scanNumber cs = { scanNumber (cs ++ more) with rest := left } := by
  have hfraction := append_scanFraction (splitWhile Char.isDigit (cs ++ more)).2
  unfold scanNumber at h hkind ⊢
  -- each part is scanned alike, since what comes behind the number comes behind the part
  cases hwhole : splitWhile Char.isDigit (cs ++ more) with
  | mk ws rest =>
    rw [hwhole] at h hkind hfraction
    cases hscan : scanFraction rest with
    | mk fs rest' =>
      simp only [hscan] at h hkind hfraction ⊢
      obtain ⟨mid, rfl⟩ : ∃ mid, rest' = mid ++ more := by
        obtain ⟨ds, hds⟩ := rest_scanExponent (ws ++ fs)
          (if fs.isEmpty then .intLiteral else .floatLiteral) rest'
        exact ⟨ds ++ left, by rw [List.append_assoc, ← h, hds]⟩
      rw [← List.append_assoc] at hfraction
      subst hfraction
      have hdigits := splitWhile_of_append (congrArg Prod.snd hwhole)
      have hfs := scanFraction_of_append (congrArg Prod.snd hscan)
      rw [hwhole] at hdigits
      rw [hscan] at hfs
      simp only [hdigits, hfs]
      exact scanExponent_of_append h hkind

/-! ## Strings -/

theorem StringMode.unfinished_ne (mode : StringMode) : mode.unfinished ≠ .closed := by
  cases mode <;> simp [unfinished]

/-- A string that is closed takes its closing quote. -/
theorem length_rest_lt_of_closed {mode : StringMode} {place : Place} {taken : List Char}
    {errors : List LexError} (h : (scanString mode place taken errors cs).ending = .closed) :
    (scanString mode place taken errors cs).rest.length < cs.length := by
  obtain ⟨s, hs⟩ := exists_closed h
  have hlength := congrArg List.length hs
  simp only [List.length_append, List.length_cons] at hlength
  omega

theorem closed_of_append {mode : StringMode} {place : Place} {taken cs : List Char}
    {errors : List LexError}
    (h : more.length ≤ (scanString mode place taken errors (cs ++ more)).rest.length)
    (hclosed : (scanString mode place taken errors (cs ++ more)).ending = .closed) :
    (scanString mode place taken errors cs).ending = .closed := by
  match cs with
  | [] => exact absurd (length_rest_lt_of_closed hclosed) (Nat.not_lt.2 h)
  | [c] =>
    -- the scan must end here, since it would take more
    rw [List.singleton_append, scanString] at h hclosed
    cases hmove : stringMove mode place c more.head? with
    | stop =>
      simp only [hmove] at hclosed
      exact absurd hclosed mode.unfinished_ne
    | close => simp [scanString, stringMove_close_any hmove]
    | one mode' error =>
      simp only [hmove] at h hclosed
      exact absurd (length_rest_lt_of_closed hclosed) (Nat.not_lt.2 h)
    | two mode' error =>
      simp only [hmove] at h hclosed
      cases more with
      | nil => exact absurd hclosed mode'.unfinished_ne
      | cons d more =>
        exact absurd (Nat.lt_of_lt_of_le (length_rest_lt_of_closed hclosed) (Nat.le_succ _))
          (Nat.not_lt.2 h)
  | c :: d :: cs =>
    rw [List.cons_append, List.cons_append, scanString, List.head?_cons] at h hclosed
    rw [scanString, List.head?_cons]
    cases hmove : stringMove mode place c (some d) with
    | stop =>
      simp only [hmove] at hclosed
      exact absurd hclosed mode.unfinished_ne
    | close => rfl
    | one mode' error =>
      simp only [hmove] at h hclosed
      show (scanString mode' _ _ _ (d :: cs)).ending = .closed
      exact closed_of_append h hclosed
    | two mode' error =>
      simp only [hmove] at h hclosed
      exact closed_of_append h hclosed
termination_by cs.length

/-- A string that is closed is scanned alike without what comes behind it. -/
theorem scanString_of_append {mode : StringMode} {place : Place} {taken cs : List Char}
    {errors : List LexError}
    (h : (scanString mode place taken errors (cs ++ more)).rest = left ++ more)
    (hclosed : (scanString mode place taken errors (cs ++ more)).ending = .closed) :
    scanString mode place taken errors cs =
      { scanString mode place taken errors (cs ++ more) with rest := left } := by
  have hle : more.length ≤ (scanString mode place taken errors (cs ++ more)).rest.length := by
    rw [h, List.length_append]
    exact Nat.le_add_left _ _
  have happend := scanString_append more (closed_of_append hle hclosed)
  rw [happend] at h ⊢
  rw [← List.append_cancel_right h]

/-! ## Marks -/

theorem scanMark_pair {start : Place} {c d : Char} {kind : TokenKind}
    (h : pairMark c d = some kind) (rest : List Char) :
    scanMark start c (d :: rest) = .valid start kind [c, d] rest := by
  simp [scanMark, h]

theorem scanMark_single {start : Place} {c : Char} (h : ∀ d ∈ cs.head?, pairMark c d = none) :
    scanMark start c cs = ⟨(scanMark start c []).lexeme, cs⟩ := by
  cases cs with
  | nil => cases hsingle : singleMark c <;> simp [scanMark, hsingle, Scan.valid, Scan.invalid]
  | cons d cs =>
    have hnone : pairMark c d = none := h d rfl
    cases hsingle : singleMark c <;> simp [scanMark, hnone, hsingle, Scan.valid, Scan.invalid]

theorem scanMark_of_append {start : Place} {c : Char}
    (h : (scanMark start c (cs ++ more)).rest = left ++ more) :
    scanMark start c cs = ⟨(scanMark start c (cs ++ more)).lexeme, left⟩ := by
  by_cases hpair : ∃ d ∈ (cs ++ more).head?, ∃ kind, pairMark c d = some kind
  · obtain ⟨d, hhead, kind, hkind⟩ := hpair
    obtain ⟨rest, heq⟩ := List.head?_eq_some_iff.1 hhead
    rw [heq, scanMark_pair hkind] at h ⊢
    obtain rfl : rest = left ++ more := h
    obtain rfl : cs = d :: left := List.append_cancel_right heq
    exact scanMark_pair hkind left
  · have hnone : ∀ d ∈ (cs ++ more).head?, pairMark c d = none := by
      intro d hhead
      exact Option.eq_none_iff_forall_ne_some.2 fun kind hkind => hpair ⟨d, hhead, kind, hkind⟩
    rw [scanMark_single hnone] at h ⊢
    obtain rfl : cs = left := List.append_cancel_right h
    refine scanMark_single fun d hhead => hnone d ?_
    simp [List.head?_append, Option.mem_def.1 hhead]

/-! ## Tokens -/

theorem StringScan.toScan_rest (s : StringScan) (start : Place) (kind : TokenKind)
    (rest : List Char) :
    StringScan.toScan start kind { s with rest } = ⟨(s.toScan start kind).lexeme, rest⟩ := by
  unfold toScan
  cases hending : s.ending with
  | closed => by_cases hempty : s.errors.reverse.isEmpty <;> simp [hempty, Scan.valid]
  | unterminated => rfl
  | openHole opening => rfl

theorem NumberScan.toScan_rest (n : NumberScan) (start : Place) (rest : List Char) :
    NumberScan.toScan start { n with rest } = ⟨(n.toScan start).lexeme, rest⟩ := by
  unfold toScan
  cases n.kind <;> rfl

theorem NumberScan.kind_of_errors {n : NumberScan} {start : Place}
    (h : (n.toScan start).lexeme.errors = []) : ∃ kind, n.kind = .ok kind := by
  cases hkind : n.kind with
  | ok kind => exact ⟨kind, rfl⟩
  | error detail => simp [toScan, hkind, Scan.invalid] at h

/-- A token without faults is scanned alike without what comes behind it. -/
theorem scanToken_of_append {start : Place} {c : Char}
    (h : (scanToken start c (cs ++ more)).rest = left ++ more)
    (herrors : (scanToken start c (cs ++ more)).lexeme.errors = []) :
    scanToken start c cs = ⟨(scanToken start c (cs ++ more)).lexeme, left⟩ := by
  unfold scanToken at h herrors ⊢
  split at h
  case isTrue hquote =>
    rw [if_pos hquote] at herrors
    rw [if_pos hquote, if_pos hquote]
    rw [rest_toScan] at h
    rw [scanString_of_append h (StringScan.closed_of_errors herrors).1, StringScan.toScan_rest]
  case isFalse hquote =>
    rw [if_neg hquote] at herrors
    rw [if_neg hquote, if_neg hquote]
    split at h
    case isTrue hdollar =>
      rw [if_pos hdollar] at herrors
      rw [rest_toScan] at h
      have hclosed := (StringScan.closed_of_errors herrors).1
      have hlt := length_rest_lt_of_closed hclosed
      rw [h, List.length_append, List.length_tail, List.length_append] at hlt
      cases cs with
      | nil => simp only [List.length_nil] at hlt; omega
      | cons d cs =>
        rw [if_pos hdollar, if_pos (by simpa using hdollar)]
        rw [List.tail_cons, scanString_of_append h hclosed, StringScan.toScan_rest]
        rfl
    case isFalse hdollar =>
      have hdollar' : ¬ (c == '$' && cs.head? == some '"') = true := by
        intro hc
        refine hdollar ?_
        simp only [Bool.and_eq_true, beq_iff_eq] at hc ⊢
        exact ⟨hc.1, by simp [List.head?_append, hc.2]⟩
      rw [if_neg hdollar] at herrors
      rw [if_neg hdollar, if_neg hdollar']
      split at h
      case isTrue hdigit =>
        rw [if_pos hdigit] at herrors
        rw [if_pos hdigit, if_pos hdigit]
        rw [NumberScan.rest_toScan] at h
        obtain ⟨kind, hkind⟩ := NumberScan.kind_of_errors herrors
        have hnumber : scanNumber (c :: cs) =
            { scanNumber (c :: (cs ++ more)) with rest := left } := scanNumber_of_append h hkind
        rw [hnumber, NumberScan.toScan_rest]
      case isFalse hdigit =>
        rw [if_neg hdigit, if_neg hdigit]
        split at h
        case isTrue hstart =>
          have hword : splitWhile isWordChar (c :: cs) =
              ((splitWhile isWordChar (c :: (cs ++ more))).1, left) := splitWhile_of_append h
          rw [if_pos hstart, if_pos hstart, hword]
          rfl
        case isFalse hstart =>
          rw [if_neg hstart, if_neg hstart]
          exact scanMark_of_append h

end TypedTemplate
