import CurlyScript.Proofs.Coherence
import CurlyScript.Proofs.TypeGrammar

/-!
# The texts of types

A type is shown with no space before a list and none between the brackets that close lists, so
that the brackets of nested lists run together into shifts when the text is read again.  Still the
text of a type is a text of that type: lexing it gives the tokens of the grammar up to shifts, and
the reader splits the shifts where the lists end.

The proof goes through the tokens that the grammar derives for a type.  The text of the type is
what these tokens are shown as, one after the other, and the lexer finds them again, two closing
brackets at a time.

## Main definitions

* `Token.shown`, `shownText` — how tokens of types are shown.
* `Neat` — tokens that can stand next to each other in a type without a space.
* `Reader.ReadsText` — a rule reads a whole text to something that is the same as given.

## Main results

* `DerivesType.text_eq` — the text of a type is how its tokens are shown.
* `Lexer.collect_shown` — tokens that are shown are found again, up to shifts.
* `DerivesType.congr` — what is derived depends on the contents of the tokens only.
* `Reader.types_reread` — the texts of types and of lists are read to the same types and lists.
-/

namespace CurlyScript

/-! ### Showing tokens -/

/-- The characters that a token of a type is shown as: a mark has a space after it. -/
def Token.shown (t : Token) : List Char :=
  match t.kind with
  | .punctuation _ => t.lexeme.toList ++ [' ']
  | _ => t.lexeme.toList

/-- Some tokens as they are shown, one after the other. -/
def shownText (tokens : List Token) : List Char := tokens.flatMap Token.shown

@[simp] theorem shownText_nil : shownText [] = [] := rfl

@[simp] theorem shownText_cons (t : Token) (tokens : List Token) :
    shownText (t :: tokens) = t.shown ++ shownText tokens := rfl

@[simp] theorem shownText_append (a b : List Token) :
    shownText (a ++ b) = shownText a ++ shownText b := List.flatMap_append

/-! ### The text of what is derived -/

/-- The text of what the tokens of a form are read to. -/
def TypeForm.text : (form : TypeForm) → form.Result → String
  | .ref, type => TypeRef.text type
  | .list?, none => ""
  | .list?, some l => TypeList.text l
  | .after? _, none => ""
  | .after? mark, some type => mark.lexeme ++ " " ++ TypeRef.text type
  | .list, l => TypeList.text l
  | .entries, types => typesText types

theorem TypeRef.text_eq (name : Token) (generics : Option TypeList) (bound : Option TypeRef) :
    (TypeRef.mk name generics bound).text =
      name.lexeme ++ TypeForm.list?.text generics ++ (TypeForm.after? .colon).text bound := by
  have hcolon : Punctuation.colon.lexeme ++ " " = ": " := rfl
  cases generics <;> cases bound <;>
    simp only [TypeRef.text, TypeForm.text, hcolon, String.append_assoc, String.append_empty]

theorem typesText_cons {entry : TypeRef} {entries : List TypeRef} (h : entries ≠ []) :
    typesText (entry :: entries) = entry.text ++ ", " ++ typesText entries := by
  cases entries with
  | nil => exact absurd rfl h
  | cons => simp [typesText]

theorem DerivesType.entries_ne_nil {p : List Token} {entries : List TypeRef}
    (h : DerivesType .entries p entries) : entries ≠ [] := by
  cases h <;> exact List.cons_ne_nil _ _

/-- A token with a fixed spelling is shown as it is spelled. -/
theorem Token.Scanned.lexeme_eq {t : Token} (h : t.Scanned) {kind : Kind} {spelling : String}
    (hkind : t.kind = kind) (hspelling : kind.lexeme? = some spelling) : t.lexeme = spelling :=
  (h.coherent.of_lexeme? (hkind ▸ hspelling)).1

theorem shown_of_operator {t : Token} {op : Operator} (hkind : t.kind = .operator op) :
    t.shown = t.lexeme.toList := by
  rw [Token.shown, hkind]

theorem shown_of_name {t : Token} (hkind : t.kind = .identifier) : t.shown = t.lexeme.toList := by
  rw [Token.shown, hkind]

theorem shown_of_mark {t : Token} {mark : Punctuation} (hkind : t.kind = .punctuation mark) :
    t.shown = t.lexeme.toList ++ [' '] := by
  rw [Token.shown, hkind]

/-- The text of a type is how the tokens that are derived for it are shown. -/
theorem DerivesType.text_eq {form : TypeForm} {p : List Token} {r : form.Result}
    (h : DerivesType form p r) (hp : ∀ t ∈ p, t.Scanned) :
    (form.text r).toList = shownText p := by
  induction h with
  | ref hname _ _ ihGenerics ihBound =>
    obtain ⟨-, hrest⟩ := List.forall_mem_cons.mp hp
    obtain ⟨ha, hb⟩ := List.forall_mem_append.mp hrest
    rw [TypeForm.text, TypeRef.text_eq, String.toList_append, String.toList_append, ihGenerics ha,
      ihBound hb, shownText_cons, shownText_append, shown_of_name hname, List.append_assoc]
  | noList | notAfter => rfl
  | someList _ ih => exact ih hp
  | after ht _ ih =>
    obtain ⟨hmark, ha⟩ := List.forall_mem_cons.mp hp
    have htype := ih ha
    simp only [TypeForm.text] at htype ⊢
    rw [String.toList_append, String.toList_append, htype, shownText_cons, shown_of_mark ht,
      hmark.lexeme_eq ht rfl]
    rfl
  | list hangle _ hclose ih =>
    obtain ⟨hopen, hrest⟩ := List.forall_mem_cons.mp hp
    obtain ⟨ha, hend⟩ := List.forall_mem_append.mp hrest
    have hentries := ih ha
    have hlast := List.forall_mem_singleton.mp hend
    simp only [TypeForm.text] at hentries ⊢
    rw [TypeList.text, String.toList_append, String.toList_append, hentries, shownText_cons,
      shownText_append, shownText_cons, shown_of_operator hangle, shown_of_operator hclose,
      hopen.lexeme_eq hangle rfl, hlast.lexeme_eq hclose rfl]
    rfl
  | last _ ih =>
    have hentry := ih hp
    simp only [TypeForm.text] at hentry ⊢
    rw [typesText, hentry]
  | more _ hcomma hmore ih ihMore =>
    obtain ⟨ha, hrest⟩ := List.forall_mem_append.mp hp
    obtain ⟨hmark, hb⟩ := List.forall_mem_cons.mp hrest
    have hentry := ih ha
    have hentries := ihMore hb
    simp only [TypeForm.text] at hentry hentries ⊢
    rw [typesText_cons hmore.entries_ne_nil, String.toList_append, String.toList_append, hentry,
      hentries, shownText_append, shownText_cons, shown_of_mark hcomma, hmark.lexeme_eq hcomma rfl,
      List.append_assoc]
    rfl

/-! ### Tokens without spaces between them -/

/-- Tokens that can be shown one after the other without running into each other, except for
closing brackets: no name comes after a name, and a name comes after an opening bracket. -/
inductive Neat : List Token → Prop
  /-- No tokens. -/
  | nil : Neat []
  /-- A name. -/
  | name {t : Token} {rest : List Token} (ht : t.kind = .identifier)
      (hrest : headKind? rest ≠ some .identifier) (h : Neat rest) : Neat (t :: rest)
  /-- An opening bracket. -/
  | less {t : Token} {rest : List Token} (ht : t.kind = .operator .less)
      (hrest : headKind? rest = some .identifier) (h : Neat rest) : Neat (t :: rest)
  /-- A closing bracket. -/
  | greater {t : Token} {rest : List Token} (ht : t.kind = .operator .greater) (h : Neat rest) :
    Neat (t :: rest)
  /-- A mark. -/
  | mark {t : Token} {mark : Punctuation} {rest : List Token} (ht : t.kind = .punctuation mark)
      (h : Neat rest) : Neat (t :: rest)

/-- What follows the name of a reference is no name if what follows the reference is none. -/
theorem DerivesType.no_name {form : TypeForm} {p q : List Token} {r : form.Result}
    (h : DerivesType form p r) (hform : form = .list? ∨ form = .after? .colon)
    (hq : headKind? q ≠ some .identifier) : headKind? (p ++ q) ≠ some .identifier := by
  cases h with
  | noList | notAfter => exact hq
  | someList h =>
    cases h with
    | list hangle =>
      rw [List.cons_append, headKind?_cons, hangle]
      exact nofun
  | after ht =>
    rw [List.cons_append, headKind?_cons, ht]
    exact nofun
  | _ => rcases hform with hform | hform <;> cases hform

/-- References and entries begin with a name. -/
theorem DerivesType.begins {form : TypeForm} {p : List Token} {r : form.Result}
    (h : DerivesType form p r) (hform : form = .ref ∨ form = .entries) (q : List Token) :
    headKind? (p ++ q) = some .identifier := by
  have href : ∀ {a : List Token} {type : TypeRef} (q : List Token), DerivesType .ref a type →
      headKind? (a ++ q) = some .identifier := by
    intro a type q h
    cases h with
    | ref hname => rw [List.cons_append, headKind?_cons, hname]
  cases h with
  | ref hname => exact href q (.ref hname ‹_› ‹_›)
  | last h => exact href q h
  | more h _ _ =>
    rw [List.append_assoc]
    exact href _ h
  | _ => rcases hform with hform | hform <;> cases hform

/-- The tokens that are derived for a type can be shown one after the other. -/
theorem DerivesType.neat {form : TypeForm} {p q : List Token} {r : form.Result}
    (h : DerivesType form p r) (hneat : Neat q) (hq : headKind? q ≠ some .identifier) :
    Neat (p ++ q) := by
  -- each part comes before the rest of the whole and then `q`, which is left open
  induction h generalizing q with
  | ref hname hgenerics hbound ihGenerics ihBound =>
    have hafter := hbound.no_name (.inr rfl) hq
    rw [List.cons_append, List.append_assoc]
    exact .name hname (hgenerics.no_name (.inl rfl) hafter) (ihGenerics (ihBound hneat hq) hafter)
  | noList | notAfter => exact hneat
  | someList _ ih => exact ih hneat hq
  | after ht _ ih => exact .mark ht (ih hneat hq)
  | list hangle hentries hclose ih =>
    rw [List.cons_append, List.append_assoc]
    refine .less hangle (hentries.begins (.inr rfl) _) (ih (.greater hclose hneat) ?_)
    rw [List.singleton_append, headKind?_cons, hclose]
    exact nofun
  | last _ ih => exact ih hneat hq
  | more _ hcomma _ ih ihMore =>
    rw [List.append_assoc, List.cons_append]
    refine ih (.mark hcomma (ihMore hneat hq)) ?_
    rw [headKind?_cons, hcomma]
    exact nofun

/-! ### Scanning without spaces -/

/-- A symbol is found where it is not continued. -/
theorem longestSymbol_stop {w r : List Char} {kind : Kind}
    (hw : longestSymbol w = some (w, kind))
    (hr : ∀ d ∈ r.head?, Symbol.isStart (w ++ [d]) = false) :
    longestSymbol (w ++ r) = some (w, kind) := by
  rcases longestSymbol_append w r with h | ⟨symbol, kind', hfound, hlonger, hkind⟩
  · exact h.trans hw
  · -- a longer symbol would begin with `w` and the character after it
    exfalso
    have hahead : symbol <+: w ++ r := extendSymbol_ahead (by simp) _ hfound
    cases r with
    | nil =>
      rw [List.append_nil] at hahead
      exact absurd hahead.length_le (Nat.not_le.mpr hlonger)
    | cons d r =>
      have hmore : w ++ [d] <+: symbol := by
        refine List.prefix_of_prefix_length_le ⟨r, by simp⟩ hahead ?_
        rw [List.length_append]
        exact hlonger
      have hentry := mem_table_of_longestSymbol hfound
      have hstart : Symbol.isStart (w ++ [d]) = true := by
        rw [Symbol.isStart, Bool.and_eq_true, List.any_eq_true]
        refine ⟨by simp, _, hentry, ?_⟩
        rw [String.toList_ofList]
        exact List.isPrefixOf_iff_prefix.mpr hmore
      rw [hr d rfl] at hstart
      cases hstart

namespace Token

/-- A token is scanned as it is where other characters follow its lexeme. -/
def StandsBefore (t : Token) (more : List Char) : Prop :=
  ∃ c cs, t.lexeme.toList = c :: cs ∧ (scan c (cs ++ more)).taken = c :: cs ∧
    (scan c (cs ++ more)).outcome = .ok (t.kind, t.literal)

/-- A token stands before a blank. -/
theorem Scanned.standsBefore_blank {t : Token} (h : t.Scanned) {w : Char}
    (hw : Text.isBlank w = true) (more : List Char) : t.StandsBefore (w :: more) := by
  obtain ⟨c, cs, htext, htaken, houtcome⟩ := h.scan_lexeme
  have hsame := scan_before_blank houtcome hw more
  exact ⟨c, cs, htext, by rw [hsame, htaken], by rw [hsame, houtcome]⟩

/-- A name stands before everything that words are not made of. -/
theorem Scanned.standsBefore_of_name {t : Token} (h : t.Scanned) (hkind : t.kind = .identifier)
    {more : List Char} (hmore : ∀ d ∈ more.head?, isWordPart d = false) : t.StandsBefore more := by
  obtain ⟨c, cs, htext, htaken, houtcome⟩ := h.scan_lexeme
  have hcoherent := h.coherent
  rw [Coherent, hkind] at hcoherent
  obtain ⟨d, ds, hword, hd, hds⟩ := Lexeme.mem_words.mp hcoherent.1
  obtain ⟨rfl, rfl⟩ := List.cons.inj (htext.symm.trans hword)
  have hstop : more.takeWhile isWordPart = [] := by
    cases more with
    | nil => rfl
    | cons e more => exact List.takeWhile_cons_of_neg (by simp [hmore e rfl])
  have hsame : scan c (cs ++ more) = scan c cs := by
    rw [scan_of_isWordStart hd, scan_of_isWordStart hd, List.takeWhile_append_of_pos hds, hstop,
      List.append_nil, List.takeWhile_eq_self_iff.mpr hds]
  exact ⟨c, cs, htext, by rw [hsame, htaken], by rw [hsame, houtcome]⟩

/-- A symbol stands before everything that does not continue it. -/
theorem standsBefore_of_symbol {t : Token} {more : List Char}
    (hsymbol : longestSymbol t.lexeme.toList = some (t.lexeme.toList, t.kind))
    (hliteral : t.literal = none)
    (hmore : ∀ d ∈ more.head?, Symbol.isStart (t.lexeme.toList ++ [d]) = false) :
    t.StandsBefore more := by
  cases htext : t.lexeme.toList with
  | nil =>
    rw [htext] at hsymbol
    cases hsymbol
  | cons c cs =>
    rw [htext] at hsymbol hmore
    have hfound := longestSymbol_stop hsymbol hmore
    rw [List.cons_append] at hfound
    refine ⟨c, cs, htext, ?_, ?_⟩
    · simp only [scan, hfound]
    · simp only [scan, hfound, hliteral]

end Token

/-- What is shown begins as its first lexeme does. -/
theorem head?_shownText {t : Token} (ht : t.Scanned) (rest : List Token) :
    (shownText (t :: rest)).head? = t.lexeme.toList.head? := by
  obtain ⟨c, cs, htext, -⟩ := ht.scan_lexeme
  rw [shownText_cons, Token.shown]
  split <;> rw [htext] <;> rfl

theorem head?_shownText_of_kind {t : Token} (ht : t.Scanned) {kind : Kind} {spelling : String}
    (hkind : t.kind = kind) (hspelling : kind.lexeme? = some spelling) (rest : List Token) :
    (shownText (t :: rest)).head? = spelling.toList.head? := by
  rw [head?_shownText ht, ht.lexeme_eq hkind hspelling]

/-- A name begins as words do. -/
theorem isWordStart_of_shown {t : Token} (ht : t.Scanned) (hkind : t.kind = .identifier)
    (rest : List Token) : ∀ d ∈ (shownText (t :: rest)).head?, isWordStart d = true := by
  intro d hd
  have hcoherent := ht.coherent
  rw [Token.Coherent, hkind] at hcoherent
  obtain ⟨c, cs, htext, hc, -⟩ := Lexeme.mem_words.mp hcoherent.1
  rw [head?_shownText ht, htext] at hd
  cases hd
  exact hc

section Shown

variable {p : List Token} (hneat : Neat p) (hp : ∀ t ∈ p, t.Scanned)

include hp in
/-- What is shown does not begin with a blank. -/
theorem isBlank_of_shown : ∀ d ∈ (shownText p).head?, Text.isBlank d = false := by
  intro d hd
  cases p with
  | nil => cases hd
  | cons t rest =>
    have ht := (List.forall_mem_cons.mp hp).1
    obtain ⟨c, cs, htext, -, houtcome⟩ := ht.scan_lexeme
    rw [head?_shownText ht, htext] at hd
    cases hd
    exact isBlank_of_scan houtcome

include hneat hp

/-- What is shown begins with a character of words only if a name comes first. -/
theorem isWordPart_of_shown (hname : headKind? p ≠ some .identifier) :
    ∀ d ∈ (shownText p).head?, isWordPart d = false := by
  intro d hd
  cases hneat with
  | nil => cases hd
  | name ht => exact absurd (by rw [headKind?_cons, ht]) hname
  | less ht =>
    rw [head?_shownText_of_kind (List.forall_mem_cons.mp hp).1 ht rfl] at hd
    cases hd
    decide
  | greater ht =>
    rw [head?_shownText_of_kind (List.forall_mem_cons.mp hp).1 ht rfl] at hd
    cases hd
    decide
  | @mark _ mark _ ht =>
    rw [head?_shownText_of_kind (List.forall_mem_cons.mp hp).1 ht rfl] at hd
    cases mark <;> cases hd <;> decide

/-- What is shown after a closing bracket or two does not go on with it, except that two brackets
make a shift. -/
theorem isStart_before_shown {w : List Char}
    (hw : w = ['>'] ∧ headKind? p ≠ some (.operator .greater) ∨ w = ['>', '>']) :
    ∀ d ∈ (shownText p).head?, Symbol.isStart (w ++ [d]) = false := by
  intro d hd
  cases hneat with
  | nil => cases hd
  | name ht =>
    have hword := isWordStart_of_shown (List.forall_mem_cons.mp hp).1 ht _ d hd
    exact isStart_append_word hword w
  | less ht =>
    rw [head?_shownText_of_kind (List.forall_mem_cons.mp hp).1 ht rfl] at hd
    cases hd
    rcases hw with ⟨rfl, -⟩ | rfl <;> decide
  | greater ht =>
    rw [head?_shownText_of_kind (List.forall_mem_cons.mp hp).1 ht rfl] at hd
    cases hd
    rcases hw with ⟨-, hw⟩ | rfl
    · exact absurd (by rw [headKind?_cons, ht]) hw
    · decide
  | @mark _ mark _ ht =>
    rw [head?_shownText_of_kind (List.forall_mem_cons.mp hp).1 ht rfl] at hd
    rcases hw with ⟨rfl, -⟩ | rfl <;> cases mark <;> cases hd <;> decide

end Shown

/-! ### Lexing without spaces -/

/-- What the halves of a token are depends on what the token is. -/
theorem content_halves {t u : Token} (h : t.content = u.content) :
    t.halves.map Token.content = u.halves.map Token.content := by
  have hkind : t.kind = u.kind := congrArg Prod.fst h
  rw [Token.halves, Token.halves, hkind]
  split
  · rfl
  · exact congrArg (fun content => [content]) h

namespace Lexer

/-- No blanks are skipped before what does not begin with one. -/
theorem rest_skipBlanks {l : Lexer} (h : ∀ d ∈ l.rest.head?, Text.isBlank d = false) :
    l.skipBlanks.rest = l.rest := by
  have hnone : l.rest.takeWhile Text.isBlank = [] := by
    cases hrest : l.rest with
    | nil => rfl
    | cons d rest =>
      rw [hrest] at h
      exact List.takeWhile_cons_of_neg (by simp [h d rfl])
  simp only [skipBlanks, past, hnone, List.length_nil, List.drop_zero]

/-- A space is skipped before what does not begin with a blank. -/
theorem rest_skipBlanks_space {l : Lexer} {rest : List Char} (hl : l.rest = ' ' :: rest)
    (h : ∀ d ∈ rest.head?, Text.isBlank d = false) : l.skipBlanks.rest = rest := by
  have hone : l.rest.takeWhile Text.isBlank = [' '] := by
    rw [hl, List.takeWhile_cons_of_pos rfl]
    cases rest with
    | nil => rfl
    | cons d rest => rw [List.takeWhile_cons_of_neg (by simp [h d rfl])]
  show l.rest.drop (l.rest.takeWhile Text.isBlank).length = rest
  rw [hone, hl]
  rfl

/-- What is handed out before tokens that are shown, given what is handed out after the first of
them: a lexeme that stands for it, or for the first two. -/
theorem collect_shown_step {l : Lexer} (first : List Token) (hfailed : l.failed = false) {t : Token}
    {rest : List Token} {more : List Char} (ht : t.StandsBefore more)
    (hl : l.skipBlanks.rest = t.lexeme.toList ++ more)
    (hmore : more = shownText rest ∨ more = ' ' :: shownText rest)
    (hrest : ∀ t ∈ rest, t.Scanned)
    (hfirst : t.halves.map Token.content = first.map Token.content)
    (hothers : ∀ l' : Lexer, l'.failed = false → l'.skipBlanks.rest = shownText rest →
      (halved l'.collect.1).map Token.content = rest.map Token.content ∧
        l'.collect.2.2.failed = false) :
    (halved l.collect.1).map Token.content = (first ++ rest).map Token.content ∧
      l.collect.2.2.failed = false := by
  obtain ⟨c, cs, htext, htaken, houtcome⟩ := ht
  obtain ⟨hitem, hafter⟩ := deliver_of_ok (l := l.skipBlanks) houtcome
  rw [htext, List.cons_append] at hl
  rw [← next_of_cons hfailed hl, htaken] at hitem hafter
  have hleft : l.next.after.rest = more := by
    rw [hafter]
    show l.skipBlanks.rest.drop (c :: cs).length = more
    rw [hl, ← List.cons_append, List.drop_left]
  have hskip : l.next.after.skipBlanks.rest = shownText rest := by
    have hblank := isBlank_of_shown hrest
    rcases hmore with rfl | rfl
    · rw [← hleft] at hblank ⊢
      exact rest_skipBlanks hblank
    · exact rest_skipBlanks_space hleft hblank
  obtain ⟨hcontents, hclean⟩ := hothers l.next.after (by rw [hafter]; exact hfailed) hskip
  rw [collect_of_token hitem]
  refine ⟨?_, hclean⟩
  rw [halved_cons, List.map_append, List.map_append, hcontents, ← hfirst]
  congr 1
  -- the token is the one that was expected, at another place
  apply content_halves
  simp only [Token.content, ← htext, String.ofList_toList]

/-- **Tokens that are shown are found again**, with two closing brackets at a time as a shift. -/
theorem collect_shown {l : Lexer} (hfailed : l.failed = false) {p : List Token} (hneat : Neat p)
    (hp : ∀ t ∈ p, t.Scanned) (hl : l.skipBlanks.rest = shownText p) :
    (halved l.collect.1).map Token.content = p.map Token.content ∧
      l.collect.2.2.failed = false := by
  -- two brackets may go at once, so that the length goes down and not only the list
  induction hlength : p.length using Nat.strong_induction_on generalizing l p with
  | _ length ih =>
    cases hneat with
    | nil =>
      have hnext := next_of_blank hfailed hl
      rw [collect_of_none (by rw [hnext]), hnext]
      exact ⟨rfl, hfailed⟩
    | @name t rest ht hrest hneat =>
      obtain ⟨hfirst, hothers⟩ := List.forall_mem_cons.mp hp
      rw [List.length_cons] at hlength
      rw [shownText_cons, shown_of_name ht] at hl
      have hstands := hfirst.standsBefore_of_name ht (isWordPart_of_shown hneat hothers hrest)
      exact collect_shown_step [t] hfailed hstands hl (.inl rfl) hothers
        (by rw [Token.halves, ht]; rfl)
        fun l' hl' hrest' => ih rest.length (by omega) hl' hneat hothers hrest' rfl
    | @less t rest ht hrest hneat =>
      obtain ⟨hfirst, hothers⟩ := List.forall_mem_cons.mp hp
      rw [List.length_cons] at hlength
      rw [shownText_cons, shown_of_operator ht] at hl
      obtain ⟨hlexeme, hliteral⟩ := hfirst.coherent.of_lexeme? (by rw [ht]; rfl)
      have hstands : t.StandsBefore (shownText rest) := by
        refine Token.standsBefore_of_symbol (by rw [hlexeme, ht]; decide) hliteral ?_
        obtain ⟨u, rest, rfl, hu⟩ := headKind?_eq_some_iff.mp hrest
        have hword := isWordStart_of_shown (List.forall_mem_cons.mp hothers).1 hu rest
        exact fun d hd => isStart_append_word (hword d hd) _
      exact collect_shown_step [t] hfailed hstands hl (.inl rfl) hothers
        (by rw [Token.halves, ht]; rfl)
        fun l' hl' hrest' => ih rest.length (by omega) hl' hneat hothers hrest' rfl
    | @greater t rest ht hneat =>
      obtain ⟨hfirst, hothers⟩ := List.forall_mem_cons.mp hp
      rw [List.length_cons] at hlength
      rw [shownText_cons, shown_of_operator ht] at hl
      obtain ⟨hlexeme, hliteral⟩ := hfirst.coherent.of_lexeme? (by rw [ht]; rfl)
      by_cases hnext : headKind? rest = some (.operator .greater)
      · -- two brackets are found as one shift
        obtain ⟨u, rest, rfl, hu⟩ := headKind?_eq_some_iff.mp hnext
        obtain ⟨hsecond, hothers⟩ := List.forall_mem_cons.mp hothers
        obtain ⟨hlexeme', hliteral'⟩ := hsecond.coherent.of_lexeme? (by rw [hu]; rfl)
        have hneat : Neat rest := by
          cases hneat with
          | greater _ h => exact h
          | name hno | less hno | mark hno =>
            rw [hu] at hno
            cases hno
        let shift : Token := { kind := .operator .rsh, lexeme := ">>", span := .atOrigin "" }
        have hstands : shift.StandsBefore (shownText rest) :=
          Token.standsBefore_of_symbol (by decide) rfl
            (isStart_before_shown hneat hothers (.inr (by decide)))
        have hboth : shift.halves.map Token.content = [t, u].map Token.content := by
          simp only [List.map_cons, List.map_nil, Token.content, ht, hu, hlexeme, hlexeme',
            hliteral, hliteral']
          rfl
        have htwo : t.lexeme.toList ++ u.lexeme.toList = shift.lexeme.toList := by
          rw [hlexeme, hlexeme']
          decide
        rw [shownText_cons, shown_of_operator hu, ← List.append_assoc, htwo] at hl
        rw [List.length_cons] at hlength
        exact collect_shown_step [t, u] hfailed hstands hl (.inl rfl) hothers hboth
          fun l' hl' hrest' => ih rest.length (by omega) hl' hneat hothers hrest' rfl
      · have hstands : t.StandsBefore (shownText rest) := by
          refine Token.standsBefore_of_symbol (by rw [hlexeme, ht]; decide) hliteral ?_
          rw [hlexeme]
          exact isStart_before_shown hneat hothers (.inl ⟨rfl, hnext⟩)
        exact collect_shown_step [t] hfailed hstands hl (.inl rfl) hothers
          (by rw [Token.halves, ht]; rfl)
          fun l' hl' hrest' => ih rest.length (by omega) hl' hneat hothers hrest' rfl
    | @mark t mark rest ht hneat =>
      obtain ⟨hfirst, hothers⟩ := List.forall_mem_cons.mp hp
      rw [List.length_cons] at hlength
      rw [shownText_cons, shown_of_mark ht, List.append_assoc] at hl
      exact collect_shown_step [t] hfailed (hfirst.standsBefore_blank rfl _) hl
        (.inr rfl) hothers (by rw [Token.halves, ht]; rfl)
        fun l' hl' hrest' => ih rest.length (by omega) hl' hneat hothers hrest' rfl

end Lexer

/-! ### Deriving again -/

/-- Sameness of what the tokens of a form are read to. -/
def TypeForm.same : (form : TypeForm) → form.Result → form.Result → Bool
  | .ref, a, b => TypeRef.same a b
  | .list?, a, b => sameGenerics a b
  | .after? _, a, b => sameBound a b
  | .list, a, b => TypeList.same a b
  | .entries, a, b => sameTypes a b

theorem Token.Regular.same_of_content {t u : Token} (ht : t.Regular) (h : u.content = t.content) :
    t.same u = true := by
  simp only [Token.content, Prod.mk.injEq] at h
  have hself := ht.same
  rw [Token.same] at hself ⊢
  rw [h.1, h.2.1, h.2.2]
  exact hself

theorem kind_of_content {t u : Token} {kind : Kind} (h : u.content = t.content)
    (ht : t.kind = kind) : u.kind = kind :=
  (congrArg Prod.fst h).trans ht

/-- What is derived for some tokens is derived, up to the place, for tokens of the same contents. -/
theorem DerivesType.congr {form : TypeForm} {p q : List Token} {r : form.Result}
    (h : DerivesType form p r) (hp : ∀ t ∈ p, t.Regular)
    (hq : q.map Token.content = p.map Token.content) :
    ∃ r', DerivesType form q r' ∧ form.same r r' = true := by
  induction h generalizing q with
  | ref hname _ _ ihGenerics ihBound =>
    obtain ⟨hfirst, hrest⟩ := List.forall_mem_cons.mp hp
    obtain ⟨ha, hb⟩ := List.forall_mem_append.mp hrest
    obtain ⟨name', q, rfl, hname', hq⟩ := List.map_eq_cons_iff.mp hq
    rw [List.map_append] at hq
    obtain ⟨a', b', rfl, ha', hb'⟩ := List.map_eq_append_iff.mp hq
    obtain ⟨generics', hgenerics, hsame⟩ := ihGenerics ha ha'
    obtain ⟨bound', hbound, hsame'⟩ := ihBound hb hb'
    refine ⟨_, .ref (kind_of_content hname' hname) hgenerics hbound, ?_⟩
    simp only [TypeForm.same] at hsame hsame' ⊢
    rw [TypeRef.same, hfirst.same_of_content hname', hsame, hsame']
    rfl
  | noList =>
    rw [List.map_nil, List.map_eq_nil_iff] at hq
    subst hq
    exact ⟨none, .noList, by simp [TypeForm.same, sameGenerics]⟩
  | someList _ ih =>
    obtain ⟨l', hlist, hsame⟩ := ih hp hq
    refine ⟨some l', .someList hlist, ?_⟩
    simp only [TypeForm.same] at hsame ⊢
    rw [sameGenerics, hsame]
  | notAfter =>
    rw [List.map_nil, List.map_eq_nil_iff] at hq
    subst hq
    exact ⟨none, .notAfter, by simp [TypeForm.same, sameBound]⟩
  | after ht _ ih =>
    obtain ⟨t', q, rfl, ht', hq⟩ := List.map_eq_cons_iff.mp hq
    obtain ⟨type', htype, hsame⟩ := ih (List.forall_mem_cons.mp hp).2 hq
    refine ⟨some type', .after (kind_of_content ht' ht) htype, ?_⟩
    simp only [TypeForm.same] at hsame ⊢
    rw [sameBound, hsame]
  | list hangle _ hclose ih =>
    obtain ⟨hfirst, hrest⟩ := List.forall_mem_cons.mp hp
    obtain ⟨angle', q, rfl, hangle', hq⟩ := List.map_eq_cons_iff.mp hq
    rw [List.map_append] at hq
    obtain ⟨a', b', rfl, ha', hb'⟩ := List.map_eq_append_iff.mp hq
    obtain ⟨close', b', rfl, hclose', hb'⟩ := List.map_eq_cons_iff.mp hb'
    rw [List.map_nil, List.map_eq_nil_iff] at hb'
    subst hb'
    obtain ⟨entries', hentries, hsame⟩ := ih (List.forall_mem_append.mp hrest).1 ha'
    refine ⟨_, .list (kind_of_content hangle' hangle) hentries (kind_of_content hclose' hclose), ?_⟩
    simp only [TypeForm.same] at hsame ⊢
    rw [TypeList.same, hfirst.same_of_content hangle', hsame]
    rfl
  | last _ ih =>
    obtain ⟨entry', hentry, hsame⟩ := ih hp hq
    refine ⟨[entry'], .last hentry, ?_⟩
    simp only [TypeForm.same] at hsame ⊢
    rw [sameTypes, hsame, sameTypes]
    rfl
  | more _ hcomma _ ih ihMore =>
    obtain ⟨ha, hrest⟩ := List.forall_mem_append.mp hp
    rw [List.map_append] at hq
    obtain ⟨a', q, rfl, ha', hq⟩ := List.map_eq_append_iff.mp hq
    obtain ⟨comma', b', rfl, hcomma', hb'⟩ := List.map_eq_cons_iff.mp hq
    obtain ⟨entry', hentry, hsame⟩ := ih ha ha'
    obtain ⟨entries', hentries, hsame'⟩ := ihMore (List.forall_mem_cons.mp hrest).2 hb'
    refine ⟨entry' :: entries', .more hentry (kind_of_content hcomma' hcomma) hentries, ?_⟩
    simp only [TypeForm.same] at hsame hsame' ⊢
    rw [sameTypes, hsame, hsame']
    rfl

/-! ### Reading the texts of types -/

theorem scanned_halfShift (t : Token) (skip : Nat) : (halfShift t skip).Scanned :=
  ⟨'>', [], rfl, rfl⟩

/-- The halves of tokens are scanned as well. -/
theorem scanned_halved {tokens : List Token} (h : ∀ t ∈ tokens, t.Scanned) :
    ∀ t ∈ halved tokens, t.Scanned := by
  intro t ht
  obtain ⟨u, hu, ht⟩ := List.mem_flatMap.mp ht
  rw [Token.halves] at ht
  split at ht
  · rcases List.mem_pair.mp ht with rfl | rfl
    · exact scanned_halfShift u 0
    · exact scanned_halfShift u 1
  · rw [List.mem_singleton.mp ht]
    exact h u hu

theorem halved_eq_nil {tokens : List Token} (h : halved tokens = []) : tokens = [] := by
  cases tokens with
  | nil => rfl
  | cons t rest =>
    rw [halved_cons, Token.halves] at h
    split at h <;> cases h

/-- At the end of the tokens nothing is read on. -/
theorem TypeForm.follows_nil (form : TypeForm) : form.Follows [] := by
  cases form <;> simp [TypeForm.Follows]

/-- The text of what has been read from scanned tokens has no lexical errors, and its tokens are
read, all of them, to the same. -/
theorem ReadsType.reread {form : TypeForm} {a b : List Token} {r : form.Result}
    (h : ReadsType form a r b) (ha : ∀ t ∈ a, t.Scanned) (file : String) :
    (Lexer.ofText file (form.text r)).collect.2.2.failed = false ∧
      ∃ r', ReadsType form (Lexer.ofText file (form.text r)).collect.1 r' [] ∧
        form.same r r' = true := by
  obtain ⟨p, hp, hderives⟩ := h.derives
  have hscanned : ∀ t ∈ p, t.Scanned := fun t ht =>
    scanned_halved ha t (hp ▸ List.mem_append_left _ ht)
  have hneat : Neat p := by
    have hneat := hderives.neat .nil nofun
    rwa [List.append_nil] at hneat
  -- the lexer finds the tokens that the grammar derives, up to shifts
  have htext := hderives.text_eq hscanned
  have hshown : (Lexer.ofText file (form.text r)).skipBlanks.rest = shownText p := by
    rw [← htext]
    refine Lexer.rest_skipBlanks ?_
    show ∀ d ∈ (form.text r).toList.head?, Text.isBlank d = false
    rw [htext]
    exact isBlank_of_shown hscanned
  obtain ⟨hcontents, hclean⟩ := Lexer.collect_shown rfl hneat hscanned hshown
  refine ⟨hclean, ?_⟩
  -- so they are derived again, and what is derived is read
  obtain ⟨r', hagain, hsame⟩ := hderives.congr (fun t ht => (hscanned t ht).regular) hcontents
  obtain ⟨rest, hrest, hreads⟩ := hagain.reads (List.append_nil _).symm form.follows_nil
  rw [halved_eq_nil hrest] at hreads
  exact ⟨r', hreads, hsame⟩

namespace Reader

/-- A text without lexical errors is read by a rule, up to its end, to something that is the same
as given. -/
def ReadsText {α : Type} (rule : Reader α) (same : α → α → Bool) (file text : String) (a : α) :
    Prop :=
  (Frontend.lex file text).1.hadError = false ∧
    ∃ a' t, rule (.ofStream (Frontend.lex file text).1) = .ok a' t ∧ t.cursor.atEnd = true ∧
      same a a' = true

/-- The tokens ahead of a reader at the start of a text. -/
theorem ahead_ofStream (file text : String) :
    (ReaderState.ofStream (Frontend.lex file text).1).cursor.ahead =
      (Lexer.ofText file text).collect.1 := by
  have hbody : ∀ t ∈ (Lexer.ofText file text).collect.1, t.isEnd = false := by
    intro t ht
    have hscanned := (Lexer.tiled_collect (Lexer.at_ofText file text) rfl).scanned t ht
    exact beq_eq_false_iff_ne.mpr hscanned.kind_ne
  have hends : ∀ t ∈ [(Lexer.ofText file text).collect.2.2.endToken], t.isEnd = true := by
    intro t ht
    rw [List.mem_singleton.mp ht]
    rfl
  rw [ReaderState.ofStream, Lexer.tokens_lex, Cursor.ofTokens_append_ends hbody hends]

/-- Wherever a reader on the tokens of a text has come, scanned tokens are ahead. -/
theorem scanned_ahead (file text : String) (course : Course) :
    ∀ t ∈ (course.run (.ofStream (Frontend.lex file text).1)).cursor.ahead, t.Scanned := by
  intro t ht
  have hplaced : (course.run (.ofStream (Frontend.lex file text).1)).cursor.Placed :=
    (placed_ofStream _).reaches (course.leads_run _).reaches
  have htokens : ∀ t ∈ (Frontend.lex file text).1.tokens, t.isEnd = false → t.Scanned := by
    intro t ht hend
    rw [Lexer.tokens_lex, List.mem_append, List.mem_singleton] at ht
    rcases ht with ht | rfl
    · exact (Lexer.tiled_collect (Lexer.at_ofText file text) rfl).scanned t ht
    · cases hend
  have hmem : t ∈ (course.run (.ofStream (Frontend.lex file text).1)).cursor.tokens :=
    List.mem_append_left _ (List.mem_append_right _ ht)
  exact forall_run (fun t skip _ => scanned_halfShift t skip) htokens course t hmem
    (hplaced.ahead_not_isEnd ht)

/-- A rule that reads a form reads the text of its result to the same result. -/
theorem readsText_of_reads (form : TypeForm) {rule : Reader form.Result}
    (hrule : ∀ {s : ReaderState}, s.cursor.Placed → ∀ r rest,
      (∃ t, rule s = .ok r t ∧ t.cursor.ahead = rest) ↔ ReadsType form s.cursor.ahead r rest)
    {s t : ReaderState} (hs : s.cursor.Placed) (hscanned : ∀ t ∈ s.cursor.ahead, t.Scanned)
    {r : form.Result} (h : rule s = .ok r t) (file : String) :
    ReadsText rule form.same file (form.text r) r := by
  have hreads := (hrule hs r _).mp ⟨t, h, rfl⟩
  obtain ⟨hclean, r', hagain, hsame⟩ := hreads.reread hscanned file
  rw [← ahead_ofStream] at hagain
  obtain ⟨t', hrun, hend⟩ := (hrule (placed_ofStream _) r' []).mpr hagain
  refine ⟨hclean, r', t', hrun, ?_, hsame⟩
  rw [Cursor.atEnd, hend]
  rfl

/-- **The text of a type is read to the same type.**

Take any state that a reader on the tokens of a text can reach, and a type, a list of type
arguments or a list of type parameters that is read there.  Its text, which has no space between
the brackets that close nested lists, has no lexical errors, and the rule that read it before reads
the tokens of that text up to the end of the file, splitting the shifts among them, to a result
that is the same up to the place. -/
theorem types_reread (file text file' : String) (course : Course) :
    let s := course.run (.ofStream (Frontend.lex file text).1)
    (∀ type t, typeRef s = .ok type t → ReadsText typeRef TypeRef.same file' type.text type) ∧
    (∀ l t, typeArguments s = .ok l t →
      ReadsText typeArguments TypeList.same file' l.text l) ∧
    ∀ l t, typeParameters? s = .ok (some l) t →
      ReadsText typeParameters? sameGenerics file' l.text (some l) := by
  intro s
  have hplaced : s.cursor.Placed := (placed_ofStream _).reaches (course.leads_run _).reaches
  have hscanned := scanned_ahead file text course
  refine ⟨?_, ?_, ?_⟩
  · intro type t h
    exact readsText_of_reads .ref typeRef_iff hplaced hscanned h file'
  · intro l t h
    exact readsText_of_reads .list typeArguments_iff hplaced hscanned h file'
  · intro l t h
    exact readsText_of_reads .list? typeParameters?_iff hplaced hscanned h file'

/-- The text of a type with nested lists and a chain of bounds ends its lists with a shift and a
bracket. -/
theorem types_reread_nested :
    let s := ReaderState.ofStream (Frontend.lex "m" "A < B < C < D > > > : E : F").1
    ∃ type t, typeRef s = .ok type t ∧ type.text = "A<B<C<D>>>: E: F" ∧
      ReadsText typeRef TypeRef.same "n" type.text type := by
  have htokens := Lexer.tokenize_eq_within 40
    (l := .ofText "m" "A < B < C < D > > > : E : F") (by decide)
  intro s
  have htext : (typeRef.run' s).map TypeRef.text = some "A<B<C<D>>>: E: F" := by
    simp only [s, Frontend.lex, htokens]
    decide +kernel
  obtain ⟨hreread, -⟩ := types_reread "m" "A < B < C < D > > > : E : F" "n" .done
  delta EStateM.run' EStateM.run at htext
  cases hrun : typeRef s with
  | ok type t =>
    rw [hrun] at htext
    exact ⟨type, t, rfl, Option.some.inj htext, hreread type t hrun⟩
  | error e t =>
    rw [hrun] at htext
    cases htext

end Reader
end CurlyScript
