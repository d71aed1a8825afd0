-- SUMMARY: An interpolated string is read as its texts and holes, a hole as the expression in it.
import TypedTemplate.Proofs.Grammar.Takes
import TypedTemplate.Proofs.Interpolation.Enclosed
import TypedTemplate.Proofs.Interpolation.Shift
import TypedTemplate.Proofs.Source.Region
import TypedTemplate.Proofs.Token.Literal

/-!
# Expressions inside interpolated strings

An expression that stands in a hole is read as it is read alone, at its place in the
string. Text around it is no part of it, and a specifier is found behind it and only there.
-/

namespace TypedTemplate

/-! ## Places -/

theorem Text.byteSize_literal (p body q : List Char) :
    byteSize ('$' :: '"' :: (p ++ '\x7b' :: (body ++ '\x7d' :: q) ++ ['"'])) =
      byteSize p + byteSize body + byteSize q + 5 := by
  have hdollar : ('$').utf8Size = 1 := by decide
  have hquote : ('"').utf8Size = 1 := by decide
  have hopen : ('\x7b').utf8Size = 1 := by decide
  have hclose : ('\x7d').utf8Size = 1 := by decide
  have hnil : byteSize [] = 0 := rfl
  simp only [byteSize_cons, byteSize_append]
  omega

theorem Place.after_eq {p : Place} {cs : List Char} (h : ∀ c ∈ cs, isLineEnd c = false) :
    p.after cs = ⟨p.line, p.col + Text.byteSize cs⟩ :=
  after_of_not_mem fun hmem => absurd (h _ hmem) (by decide)

/-! ## Literals -/

/-- The text stands for itself between the quotes of an interpolated string. -/
def Unescaped (cs : List Char) : Prop :=
  ∀ c ∈ cs, isLineEnd c = false ∧ c ∉ ['"', '\\', '\x7b', '\x7d']

namespace Unescaped

variable {cs : List Char}

theorem scans (h : Unescaped cs) : Scans .text cs .text := by
  refine Scans.run fun c hc => ?_
  obtain ⟨hline, hchar⟩ := h c hc
  simp only [List.mem_cons, List.not_mem_nil, or_false, not_or] at hchar
  exact Scans.textChar hline hchar.2.2.1 hchar.2.2.2 hchar.2.1 hchar.1

theorem cutPieces_eq (h : Unescaped cs) (out : List Piece) (pending : List Char) (place : Place)
    (rest : List Char) : cutPieces out (.text pending) place (cs ++ rest) =
      cutPieces out (.text (cs.reverse ++ pending)) (place.after cs) rest := by
  induction cs generalizing pending place with
  | nil => rfl
  | cons c cs ih =>
    have hchar := (h c List.mem_cons_self).2
    rw [List.cons_append, cutPieces.eq_def, List.reverse_cons, List.append_assoc,
      List.singleton_append, Place.after_cons, ← ih fun c hc => h c (List.mem_cons_of_mem _ hc)]
    simp_all

end Unescaped

/-- A literal is read as an interpolated string. The errors in its holes are its only ones. -/
theorem FillsLiteral.parse {body : List Char} (h : FillsLiteral body) {i : Interpolation}
    (hread : Grammar.interpolation ((String.ofList ('$' :: '"' :: (body ++ ['"']))).length + 1)
      (literalToken .first body) = i) :
    Expr.parse (String.ofList ('$' :: '"' :: (body ++ ['"']))) =
      if i.errors.isEmpty then .ok (.interpolated i.segments (literalToken .first body).span)
      else .error (ParseError.inOrder i.errors) := by
  unfold Expr.parse Grammar.standalone
  rw [String.toList_ofList, h.ofChars]
  dsimp only
  generalize hg : Grammar.mk _ _ = g
  have hread : g.interpolate (literalToken .first body) = i := by rw [← hg, ← hread]
  have hreply : (g.wholeExpr
      (Lexemes.single .interpolatedString .first ('$' :: '"' :: (body ++ ['"']))).lexemes).Records
        (.interpolated i.segments (literalToken .first body).span) [] (i.errors ++ []) := by
    have hkind : (literalToken .first body).kind = .interpolatedString := rfl
    obtain ⟨hunary, hatom⟩ := Grammar.atom?_interpolated (g := g) hkind
    rw [hread] at hatom
    exact (Grammar.records_expr_atom hunary hatom stops_nil).andThen fun _ => ⟨rfl, rfl, rfl⟩
  rw [Grammar.faultsMet_of_ok hreply.1 hreply.2.1, hreply.1, hreply.2.2]
  simp [Lexemes.single]

/-- A literal without faults is read as the pieces of its body. -/
theorem Expr.parse_literal {body : List Char} (h : Scans .text body .text) {ss : List Segment}
    (hread : Grammar.segments (Grammar.standalone (Grammar.interpolation
      (String.ofList ('$' :: '"' :: (body ++ ['"']))).length)) (pieces ⟨1, 3⟩ body) = ⟨ss, []⟩) :
    parse (String.ofList ('$' :: '"' :: (body ++ ['"']))) =
      .ok (.interpolated ss (Place.first.spanOf ('$' :: '"' :: (body ++ ['"'])))) := by
  refine h.fillsLiteral.parse (i := ⟨ss, []⟩) ?_
  rw [Grammar.interpolation_succ, ← hread]
  simp [Grammar.interpolatedBody, literalToken, Place.spanOf, Place.span, Place.first]

/-! ## A hole between two texts -/

theorem head?_append_ne {cs ds : List Char} {c d : Char} (h : cs.head? ≠ some c) (hd : d ≠ c) :
    (cs ++ d :: ds).head? ≠ some c := by
  cases cs with
  | nil => simpa using hd
  | cons c' cs => simpa using h

/-- Text between holes is one piece, if there is any. -/
def textPieces (cs : List Char) : List Piece := if cs.isEmpty then [] else [.text cs]

/-- Text between holes is one segment, if there is any. -/
def textSegments (cs : List Char) : List Segment :=
  if cs.isEmpty then [] else [.text (String.ofList cs)]

theorem PieceMode.finish_text (cs : List Char) (out : List Piece) :
    (PieceMode.text cs.reverse).finish out = (textPieces cs).reverse ++ out := by
  cases cs with
  | nil => rfl
  | cons c cs =>
    cases hrev : (c :: cs).reverse with
    | nil => simp at hrev
    | cons d ds => simp [PieceMode.finish, textPieces, ← hrev]

/-- A hole between two texts is cut out as it stands. -/
theorem pieces_hole {p q body : List Char} (hp : Unescaped p) (hq : Unescaped q)
    (hbody : HoleText body) (hbrace : body.head? ≠ some '\x7b') (place : Place) :
    pieces place (p ++ '\x7b' :: (body ++ '\x7d' :: q)) =
      textPieces p ++ .hole (place.after p) body :: textPieces q := by
  have hhead : (body ++ '\x7d' :: q).head? ≠ some '\x7b' := head?_append_ne hbrace (by decide)
  have hcut := hbody.cutsTo (place.after p) [] (textPieces p).reverse
    ((place.after p).next '\x7b') ('\x7d' :: q)
  have htail := hq.cutPieces_eq (.hole (place.after p) body :: (textPieces p).reverse) []
    ((((place.after p).next '\x7b').after body).next '\x7d') []
  simp only [List.append_nil] at hcut htail
  rw [pieces, hp.cutPieces_eq, List.append_nil, cutPieces_open hhead, PieceMode.finish_text,
    List.append_nil, hcut, cutPieces_close, List.reverse_reverse, htail, cutPieces,
    PieceMode.finish_text]
  simp

theorem HoleText.scans_braces {body : List Char} (h : HoleText body)
    (hbrace : body.head? ≠ some '\x7b') :
    Scans .text ('\x7b' :: (body ++ ['\x7d'])) .text := by
  intro place taken rest
  have hclose : Scans (.hole place) ['\x7d'] .text := .one fun _ _ => rfl
  obtain ⟨place', hscan⟩ :=
    ((h.scans place).append hclose) (place.next '\x7b') ('\x7b' :: taken) rest
  refine ⟨place', ?_⟩
  have hhead : (body ++ ['\x7d'] ++ rest).head? ≠ some '\x7b' := by
    rw [List.append_assoc]
    exact head?_append_ne hbrace (by decide)
  have hmove : ∀ next, next ≠ some '\x7b' →
      stringMove .text place '\x7b' next = .one (.hole place) none := by
    intro next hnext
    simp [stringMove, hnext, (by decide : isLineEnd '\x7b' = false)]
  rw [List.cons_append, scanString, hmove _ hhead]
  simp only [Option.toList_none, List.nil_append]
  rw [hscan]
  simp

theorem scans_hole {p q body : List Char} (hp : Unescaped p) (hq : Unescaped q)
    (hbody : HoleText body) (hbrace : body.head? ≠ some '\x7b') :
    Scans .text (p ++ '\x7b' :: (body ++ '\x7d' :: q)) .text := by
  have hall := hp.scans.append ((hbody.scans_braces hbrace).append hq.scans)
  simpa using hall

theorem Grammar.segments_hole {parse : Place → List Char → Standalone} {place : Place}
    {body : List Char} {segment : Segment} (h : hole parse place body = (segment, []))
    (p q : List Char) : segments parse (textPieces p ++ .hole place body :: textPieces q) =
      ⟨textSegments p ++ segment :: textSegments q, []⟩ := by
  rw [segments_eq]
  cases p <;> cases q <;> simp [textPieces, textSegments, segmentOf, h]

/-- A hole between two texts is read as its segment between theirs. -/
theorem Expr.parse_hole {p q body : List Char} (hp : Unescaped p) (hq : Unescaped q)
    (hbody : HoleText body) (hbrace : body.head? ≠ some '\x7b') {segment : Segment}
    (hread : ∀ depth, body.length ≤ depth →
      Grammar.hole (Grammar.standalone (Grammar.interpolation depth))
        ((⟨1, 3⟩ : Place).after p) body = (segment, [])) :
    parse (String.ofList ('$' :: '"' :: (p ++ '\x7b' :: (body ++ '\x7d' :: q) ++ ['"']))) =
      .ok (.interpolated (textSegments p ++ segment :: textSegments q)
        (Place.first.spanOf ('$' :: '"' :: (p ++ '\x7b' :: (body ++ '\x7d' :: q) ++ ['"'])))) := by
  refine parse_literal (scans_hole hp hq hbody hbrace) ?_
  rw [pieces_hole hp hq hbody hbrace]
  exact Grammar.segments_hole (hread _ (by simp; omega)) p q

/-! ## Specifiers -/

/-- A colon behind an expression starts a specifier. -/
theorem splitFormat_colon {cs f : List Char} (h : Searches ⟨0, 0, false⟩ cs ⟨0, 0, false⟩)
    (hf : f.head? ≠ some ':') : splitFormat (cs ++ ':' :: f) = (cs, some f) := by
  rw [splitFormat, h, splitFormatFrom_cons]
  simp [hf]

theorem Text.mem_trimChars {cs : List Char} {c : Char} (h : c ∈ cs) :
    isBlank c = true ∨ c ∈ trimChars cs := by
  have hsplit : ∀ ds : List Char, c ∈ ds → isBlank c = true ∨ c ∈ ds.dropWhile isBlank := by
    intro ds hds
    rw [← List.takeWhile_append_dropWhile (p := isBlank) (l := ds), List.mem_append] at hds
    exact hds.imp_left fun htake => List.all_eq_true.1 List.all_takeWhile c htake
  refine (hsplit cs h).elim .inl fun hdrop => ?_
  refine (hsplit _ (List.mem_reverse.2 hdrop)).imp_right fun hdrop' => ?_
  exact List.mem_reverse.2 hdrop'

theorem FormatKind.isWordChar_of_parseWidth {ds : List Char} {width : Option UInt8}
    (h : parseWidth ds = some width) : ∀ d ∈ ds, isWordChar d = true := by
  intro d hd
  unfold parseWidth at h
  split at h
  case isTrue hempty =>
    rw [List.isEmpty_iff.1 hempty] at hd
    cases hd
  case isFalse =>
    split at h
    case isTrue hdigits =>
      have hdigit := List.all_eq_true.1 (Bool.and_eq_true_iff.1 hdigits).1 d hd
      simp [isWordChar, Char.isAlphanum, hdigit]
    case isFalse => cases h

theorem FormatKind.isWordChar_of_ofLetter {letter : Char} {width : Option UInt8} {k : FormatKind}
    (h : ofLetter letter width = some k) : isWordChar letter = true := by
  unfold ofLetter at h
  split at h <;> first | decide | cases h

theorem FormatKind.isWordChar_of_parse {cs : List Char} {k : FormatKind} (h : parse cs = some k) :
    ∀ c ∈ cs, isWordChar c = true := by
  cases cs with
  | nil => cases h
  | cons letter ds =>
    obtain ⟨width, hwidth, hletter⟩ := Option.bind_eq_some_iff.1 h
    exact List.forall_mem_cons.2
      ⟨isWordChar_of_ofLetter hletter, isWordChar_of_parseWidth hwidth⟩

/-- The text of a specifier, blanks around it included, can stand in a hole. -/
theorem FormatKind.holeText_of_parse {f : List Char} {k : FormatKind}
    (hline : ∀ c ∈ f, isLineEnd c = false) (h : parse (Text.trimChars f) = some k) :
    HoleText (':' :: f) ∧ f.head? ≠ some ':' := by
  have hchar : ∀ c ∈ f, ∀ d, Text.isBlank d = false → isWordChar d = false → c ≠ d := by
    rintro c hc _ hblank hword rfl
    rcases Text.mem_trimChars hc with h' | h'
    · exact absurd h' (by simp [hblank])
    · exact absurd (isWordChar_of_parse h c h') (by simp [hword])
  constructor
  · exact .char (by decide) (by decide) (by decide) (.of_forall fun c hc =>
      ⟨hline c hc, hchar c hc '"' (by decide) (by decide),
        hchar c hc '\x7d' (by decide) (by decide)⟩)
  · intro hhead
    exact hchar ':' (List.mem_of_mem_head? hhead) ':' (by decide) (by decide) rfl

theorem Grammar.formatSpec_eq_ok (place : Place) {f : List Char} {k : FormatKind}
    (h : FormatKind.parse (Text.trimChars f) = some k) :
    formatSpec place f = .ok ⟨k, place.spanOf f⟩ := by
  simp [formatSpec, h]

/-! ## Expressions -/

theorem skipTrivia_of_isSpace {cs : List Char} (h : ∀ c ∈ cs, isSpace c = true) :
    skipTrivia false [] cs = (cs, []) := by
  induction cs with
  | nil => rfl
  | cons c cs ih =>
    rw [skipTrivia_space cs (h c List.mem_cons_self),
      ih fun c hc => h c (List.mem_cons_of_mem _ hc)]

namespace Expr

variable {text : String} {e : Expr}

/-- An expression is not blank. -/
theorem isEmpty_trimChars (h : parse text = .ok e) :
    (Text.trimChars text.toList).isEmpty = false := by
  refine Bool.eq_false_iff.2 fun hempty => ?_
  have hspace : ∀ c ∈ text.toList, isSpace c = true := by
    intro c hc
    rcases Text.mem_trimChars hc with hblank | htrim
    · simp [isSpace, hblank]
    · rw [List.isEmpty_iff.1 hempty] at htrim
      cases htrim
  obtain ⟨ws, w, he, -⟩ := e.final_terminals
  have hterminals := (parse_eq_ok h).2.2
  rw [he, terminalsOf, lexemesOf, Lexemes.lexemes_of_nil (skipTrivia_of_isSpace hspace)]
    at hterminals
  simp at hterminals

/-- The expression of a hole behind the text `p` is read as it is alone, moved. -/
theorem standalone_behind {p : List Char} (hp : Unescaped p)
    (hline : ∀ c ∈ text.toList, isLineEnd c = false) (h : parse text = .ok e) {depth : Nat}
    (hdepth : text.length ≤ depth) :
    Grammar.standalone (Grammar.interpolation depth)
      (((⟨1, 3⟩ : Place).after p).next '\x7b') text.toList =
        .ok (e.shift 0 (3 + Text.byteSize p)) := by
  have hnewline : ∀ c ∈ text.toList, c ≠ '\n' := by
    rintro c hc rfl
    exact absurd (hline _ hc) (by decide)
  have hplace : ((⟨1, 3⟩ : Place).after p).next '\x7b' =
      Place.first.shift 0 (3 + Text.byteSize p) := by
    rw [Place.after_eq fun c hc => (hp c hc).1, Place.next, if_neg (by decide)]
    simp only [Place.shift, Place.first, Place.mk.injEq, true_and]
    have hsize : ('\x7b').utf8Size = 1 := by decide
    omega
  rw [hplace, standalone_of_parse hnewline hdepth, h]
  rfl

/-- An expression in a hole, with what stands behind it there, is read as it is alone, moved, if the
readers of characters pass over the hole and cut it behind the expression. -/
theorem parse_enclosed_with {p q behind : List Char} {spec? : Option (List Char)}
    {format : Option FormatSpec} (hp : Unescaped p) (hq : Unescaped q)
    (hline : ∀ c ∈ text.toList, isLineEnd c = false) (h : parse text = .ok e)
    (hhole : HoleText (text.toList ++ behind))
    (hbrace : (text.toList ++ behind).head? ≠ some '\x7b')
    (hsplit : splitFormat (text.toList ++ behind) = (text.toList, spec?))
    (hformat : spec?.map (Grammar.formatSpec
      ⟨1, 5 + Text.byteSize p + Text.byteSize text.toList⟩) = format.map .ok) :
    parse (String.ofList ('$' :: '"' ::
      (p ++ '\x7b' :: ((text.toList ++ behind) ++ '\x7d' :: q) ++ ['"']))) = .ok (.interpolated
      (textSegments p ++
        .hole (e.shift 0 (3 + Text.byteSize p)) format
          ⟨1, 3 + Text.byteSize p, Text.byteSize (text.toList ++ behind) + 2⟩ :: textSegments q)
      ⟨1, 1, Text.byteSize p + Text.byteSize (text.toList ++ behind) + Text.byteSize q + 5⟩) := by
  have hplace : ((((⟨1, 3⟩ : Place).after p).next '\x7b').after text.toList).next ':' =
      ⟨1, 5 + Text.byteSize p + Text.byteSize text.toList⟩ := by
    have hopen : ('\x7b').utf8Size = 1 := by decide
    have hmark : (':').utf8Size = 1 := by decide
    rw [Place.after_eq fun c hc => (hp c hc).1, Place.next, if_neg (by decide),
      Place.after_eq hline, Place.next, if_neg (by decide)]
    simp only [Place.mk.injEq, true_and]
    omega
  have hread : ∀ depth, (text.toList ++ behind).length ≤ depth →
      Grammar.hole (Grammar.standalone (Grammar.interpolation depth))
        ((⟨1, 3⟩ : Place).after p) (text.toList ++ behind) =
          (.hole (e.shift 0 (3 + Text.byteSize p)) format
            (((⟨1, 3⟩ : Place).after p).span (Text.byteSize (text.toList ++ behind) + 2)), []) := by
    intro depth hdepth
    have hlength : text.length ≤ depth := by
      rw [List.length_append, String.length_toList] at hdepth
      omega
    refine (Grammar.hole_eq_ok (Grammar.standalone_ne_error _)).2 ?_
    rw [hsplit, hplace]
    exact ⟨isEmpty_trimChars h, _, format, standalone_behind hp hline h hlength, hformat, rfl⟩
  rw [parse_hole hp hq hhole hbrace hread, Place.after_eq fun c hc => (hp c hc).1, Place.spanOf,
    Text.byteSize_literal]
  rfl

/-- An expression that fills a hole is read as it is alone, moved. -/
theorem parse_enclosed {p q : String} (hp : Unescaped p.toList) (hq : Unescaped q.toList)
    (hline : ∀ c ∈ text.toList, isLineEnd c = false) (h : parse text = .ok e)
    (hhole : HoleText text.toList) (hsearch : splitFormat text.toList = (text.toList, none)) :
    parse ("$\"" ++ p ++ "\x7b" ++ text ++ "\x7d" ++ q ++ "\"") = .ok (.interpolated
      (textSegments p.toList ++
        .hole (e.shift 0 (3 + Text.byteSize p.toList)) none
          ⟨1, 3 + Text.byteSize p.toList, Text.byteSize text.toList + 2⟩ :: textSegments q.toList)
      ⟨1, 1, Text.byteSize p.toList + Text.byteSize text.toList + Text.byteSize q.toList + 5⟩) := by
  have hchars : "$\"" ++ p ++ "\x7b" ++ text ++ "\x7d" ++ q ++ "\"" = String.ofList ('$' :: '"' ::
      (p.toList ++ '\x7b' :: ((text.toList ++ []) ++ '\x7d' :: q.toList) ++ ['"'])) := by
    rw [← String.toList_inj, String.toList_ofList]
    simp
  have hnil : text.toList ++ [] = text.toList := List.append_nil _
  have hspec : (none : Option (List Char)).map (Grammar.formatSpec
      ⟨1, 5 + Text.byteSize p.toList + Text.byteSize text.toList⟩) =
        (none : Option FormatSpec).map .ok := rfl
  rw [hchars, parse_enclosed_with hp hq hline h (by rwa [hnil])
    (by rw [hnil]; exact head?_ne_of_parse h) (by rwa [hnil]) hspec, hnil]

/-- An expression before a specifier is read as it is alone, moved. -/
theorem parse_enclosed_format {p q f : String} {k : FormatKind} (hp : Unescaped p.toList)
    (hq : Unescaped q.toList) (hline : ∀ c ∈ text.toList, isLineEnd c = false)
    (h : parse text = .ok e) (hhole : HoleText text.toList)
    (hsearch : Searches ⟨0, 0, false⟩ text.toList ⟨0, 0, false⟩)
    (hf : ∀ c ∈ f.toList, isLineEnd c = false)
    (hk : FormatKind.parse (Text.trimChars f.toList) = some k) :
    parse ("$\"" ++ p ++ "\x7b" ++ text ++ ":" ++ f ++ "\x7d" ++ q ++ "\"") = .ok (.interpolated
      (textSegments p.toList ++
        .hole (e.shift 0 (3 + Text.byteSize p.toList))
          (some ⟨k, ⟨1, 5 + Text.byteSize p.toList + Text.byteSize text.toList,
            Text.byteSize f.toList⟩⟩)
          ⟨1, 3 + Text.byteSize p.toList,
            Text.byteSize text.toList + Text.byteSize f.toList + 3⟩ :: textSegments q.toList)
      ⟨1, 1, Text.byteSize p.toList + Text.byteSize text.toList + Text.byteSize f.toList +
        Text.byteSize q.toList + 6⟩) := by
  have hchars : "$\"" ++ p ++ "\x7b" ++ text ++ ":" ++ f ++ "\x7d" ++ q ++ "\"" =
      String.ofList ('$' :: '"' ::
        (p.toList ++ '\x7b' :: ((text.toList ++ ':' :: f.toList) ++ '\x7d' :: q.toList) ++
          ['"'])) := by
    rw [← String.toList_inj, String.toList_ofList]
    simp
  obtain ⟨hformat, hcolon⟩ := FormatKind.holeText_of_parse hf hk
  have hsize : Text.byteSize (text.toList ++ ':' :: f.toList) =
      Text.byteSize text.toList + Text.byteSize f.toList + 1 := by
    have hmark : (':').utf8Size = 1 := by decide
    rw [Text.byteSize_append, Text.byteSize_cons]
    omega
  have hall : Text.byteSize p.toList + (Text.byteSize text.toList + Text.byteSize f.toList + 1) +
      Text.byteSize q.toList + 5 = Text.byteSize p.toList + Text.byteSize text.toList +
        Text.byteSize f.toList + Text.byteSize q.toList + 6 := by
    omega
  have hspec : (some f.toList).map (Grammar.formatSpec
      ⟨1, 5 + Text.byteSize p.toList + Text.byteSize text.toList⟩) =
        (some ⟨k, ⟨1, 5 + Text.byteSize p.toList + Text.byteSize text.toList,
          Text.byteSize f.toList⟩⟩ : Option FormatSpec).map .ok :=
    congrArg some (Grammar.formatSpec_eq_ok _ hk)
  rw [hchars, parse_enclosed_with hp hq hline h (hhole.append hformat)
    (head?_append_ne (head?_ne_of_parse h) (by decide)) (splitFormat_colon hsearch hcolon) hspec,
    hsize, hall]

/-- Cutting an interpolated string agrees with the grammar. An expression without interpolated
strings and comments that stands in a hole, alone or before a specifier, is read as it is alone,
moved to its place in the string. The texts around the hole are segments of their own. -/
theorem parse_interpolated {text p q : String} {e : Expr} (he : parse text = .ok e)
    (hline : ∀ c ∈ text.toList, isLineEnd c = false) (hplain : PlainText text)
    (hcomments : CommentFree text) (hp : Unescaped p.toList) (hq : Unescaped q.toList) :
    parse ("$\"" ++ p ++ "\x7b" ++ text ++ "\x7d" ++ q ++ "\"") = .ok (.interpolated
      (textSegments p.toList ++
        .hole (e.shift 0 (3 + Text.byteSize p.toList)) none
          ⟨1, 3 + Text.byteSize p.toList, Text.byteSize text.toList + 2⟩ :: textSegments q.toList)
      ⟨1, 1, Text.byteSize p.toList + Text.byteSize text.toList + Text.byteSize q.toList + 5⟩) ∧
    ∀ (f : String) (k : FormatKind), (∀ c ∈ f.toList, isLineEnd c = false) →
      FormatKind.parse (Text.trimChars f.toList) = some k →
      parse ("$\"" ++ p ++ "\x7b" ++ text ++ ":" ++ f ++ "\x7d" ++ q ++ "\"") = .ok (.interpolated
        (textSegments p.toList ++
          .hole (e.shift 0 (3 + Text.byteSize p.toList))
            (some ⟨k, ⟨1, 5 + Text.byteSize p.toList + Text.byteSize text.toList,
              Text.byteSize f.toList⟩⟩)
            ⟨1, 3 + Text.byteSize p.toList,
              Text.byteSize text.toList + Text.byteSize f.toList + 3⟩ :: textSegments q.toList)
        ⟨1, 1, Text.byteSize p.toList + Text.byteSize text.toList + Text.byteSize f.toList +
          Text.byteSize q.toList + 6⟩) := by
  have hhole := (enclosable_of_parse he hcomments hplain.shallow).holeText hline
  have hsearch := searches_of_parse he hcomments hplain.shallow
  exact ⟨parse_enclosed hp hq hline he hhole (splitFormat_of_searches hsearch),
    fun f k hf hk => parse_enclosed_format hp hq hline he hhole hsearch hf hk⟩

theorem parse_interpolated_conditional :
    ∃ e, parse "a ? b.c(\"\x7d:\", 1) : d ?? \"\\\"\"" = .ok e ∧
      parse "$\"A \x7ba ? b.c(\"\x7d:\", 1) : d ?? \"\\\"\"\x7d Z\"" =
        .ok (.interpolated [.text "A ", .hole (e.shift 0 5) none ⟨1, 5, 30⟩, .text " Z"]
          ⟨1, 1, 37⟩) ∧
      parse "$\"A \x7ba ? b.c(\"\x7d:\", 1) : d ?? \"\\\"\": F2 \x7d Z\"" =
        .ok (.interpolated [.text "A ", .hole (e.shift 0 5) (some ⟨.fixed 2, ⟨1, 35, 4⟩⟩)
          ⟨1, 5, 35⟩, .text " Z"] ⟨1, 1, 42⟩) := by
  have hok : (parse "a ? b.c(\"\x7d:\", 1) : d ?? \"\\\"\"").isOk = true := by decide +kernel
  cases he : parse "a ? b.c(\"\x7d:\", 1) : d ?? \"\\\"\"" with
  | error errors => simp [he, Except.isOk, Except.toBool] at hok
  | ok e =>
    have hplain : PlainText "a ? b.c(\"\x7d:\", 1) : d ?? \"\\\"\"" := by
      unfold PlainText
      decide +kernel
    have hcomments : CommentFree "a ? b.c(\"\x7d:\", 1) : d ?? \"\\\"\"" := by
      unfold CommentFree
      decide +kernel
    have hp : Unescaped "A ".toList := by unfold Unescaped; decide
    have hq : Unescaped " Z".toList := by unfold Unescaped; decide
    obtain ⟨halone, hformat⟩ := parse_interpolated he (by decide) hplain hcomments hp hq
    exact ⟨e, rfl, halone, hformat " F2 " (.fixed 2) (by decide) (by decide +kernel)⟩

end Expr

end TypedTemplate
