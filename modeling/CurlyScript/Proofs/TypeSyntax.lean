import CurlyScript.Grammar.TypeRules
import CurlyScript.Proofs.Contract

/-!
# The syntax of types

The rules for types read exactly the types of a grammar.  The grammar relates a list of tokens
to a type and to what is left of the tokens, and says of every optional part when it is there:
a part is missing only before a token that could not begin it.

## Main definitions

* `TypeForm` — the forms of the grammar: a reference, its optional parts, a list, its entries.
* `ReadsType` — the tokens that are read to a type of some form.
* `ReadsParams` — the tokens that are read to the parameters of a function.

## Main results

* `Reader.meets_typeAt`, `Reader.meets_typeRef`, `Reader.meets_typeParameters?`,
  `Reader.meets_typeArguments`, `Reader.meets_parameters` — the contracts of the rules.
-/

namespace CurlyScript

/-! ### The grammar -/

/-- The forms of the grammar of types. -/
inductive TypeForm
  /-- A reference to a type. -/
  | ref
  /-- The list after the name of a type, if there is one. -/
  | list?
  /-- A reference after a mark, if the mark is there. -/
  | after? (mark : Punctuation)
  /-- A list in angle brackets. -/
  | list
  /-- References with commas between them. -/
  | entries

/-- What the tokens of a form are read to. -/
abbrev TypeForm.Result : TypeForm → Type
  | .ref => TypeRef
  | .list? => Option TypeList
  | .after? _ => Option TypeRef
  | .list => TypeList
  | .entries => List TypeRef

/-- Tokens that are read to a type, and what is left of them. -/
inductive ReadsType : (form : TypeForm) → Reading form.Result
  /-- A name with its list and its bound. -/
  | ref {name : Token} {a b c : List Token} {generics : Option TypeList} {bound : Option TypeRef}
      (hname : name.kind = .identifier) (hgenerics : ReadsType .list? a generics b)
      (hbound : ReadsType (.after? .colon) b bound c) :
    ReadsType .ref (name :: a) ⟨name, generics, bound⟩ c
  /-- No list. -/
  | noList {a : List Token} (h : headKind? a ≠ some (.operator .less)) :
    ReadsType .list? a none a
  /-- A list. -/
  | someList {a b : List Token} {l : TypeList} (h : ReadsType .list a l b) :
    ReadsType .list? a (some l) b
  /-- No mark. -/
  | notAfter {mark : Punctuation} {a : List Token} (h : headKind? a ≠ some (.punctuation mark)) :
    ReadsType (.after? mark) a none a
  /-- A mark and a reference. -/
  | after {mark : Punctuation} {t : Token} {a b : List Token} {type : TypeRef}
      (ht : t.kind = .punctuation mark) (h : ReadsType .ref a type b) :
    ReadsType (.after? mark) (t :: a) (some type) b
  /-- Entries between angle brackets. -/
  | list {angle close : Token} {a b c : List Token} {entries : List TypeRef}
      (hangle : angle.kind = .operator .less) (hentries : ReadsType .entries a entries b)
      (hclose : Closes b close c) :
    ReadsType .list (angle :: a) ⟨angle, entries⟩ c
  /-- The last entry. -/
  | last {a b : List Token} {entry : TypeRef} (h : ReadsType .ref a entry b)
      (hb : headKind? b ≠ some (.punctuation .comma)) :
    ReadsType .entries a [entry] b
  /-- An entry, a comma and more entries. -/
  | more {comma : Token} {a b c : List Token} {entry : TypeRef} {entries : List TypeRef}
      (h : ReadsType .ref a entry (comma :: b)) (hcomma : comma.kind = .punctuation .comma)
      (hmore : ReadsType .entries b entries c) :
    ReadsType .entries a (entry :: entries) c

/-- Tokens that are read to named, typed parameters, and what is left of them. -/
inductive ReadsParams : Reading (List Param)
  /-- The last parameter. -/
  | last {name colon : Token} {a b : List Token} {type : TypeRef}
      (hname : name.kind = .identifier) (hcolon : colon.kind = .punctuation .colon)
      (htype : ReadsType .ref a type b) (hb : headKind? b ≠ some (.punctuation .comma)) :
    ReadsParams (name :: colon :: a) [⟨name, type⟩] b
  /-- A parameter, a comma and more parameters. -/
  | more {name colon comma : Token} {a b c : List Token} {type : TypeRef} {params : List Param}
      (hname : name.kind = .identifier) (hcolon : colon.kind = .punctuation .colon)
      (htype : ReadsType .ref a type (comma :: b)) (hcomma : comma.kind = .punctuation .comma)
      (hmore : ReadsParams b params c) :
    ReadsParams (name :: colon :: a) (⟨name, type⟩ :: params) c

/-- Tokens that are read to the parameters of a function up to the closing parenthesis. -/
inductive ReadsParameters : Reading (List Param)
  /-- None. -/
  | none {close : Token} {a : List Token} (hclose : close.kind = .punctuation .rparen) :
    ReadsParameters (close :: a) [] a
  /-- At least one. -/
  | some {close : Token} {a b : List Token} {params : List Param}
      (ha : headKind? a ≠ some (.punctuation .rparen)) (h : ReadsParams a params (close :: b))
      (hclose : close.kind = .punctuation .rparen) :
    ReadsParameters a params b

namespace Reader

variable {c : Cursor}

/-! ### Lists -/

theorem readsType_entries_iff {tokens rest : List Token} {entries : List TypeRef} :
    ReadsType .entries tokens entries rest ↔
      (∃ entry, ReadsType .ref tokens entry rest ∧
        headKind? rest ≠ some (.punctuation .comma) ∧ entries = [entry]) ∨
      ∃ entry comma between more, ReadsType .ref tokens entry (comma :: between) ∧
        comma.kind = .punctuation .comma ∧ ReadsType .entries between more rest ∧
        entries = entry :: more := by
  constructor
  · intro h
    cases h with
    | last h hb => exact .inl ⟨_, h, hb, rfl⟩
    | more h hcomma hmore => exact .inr ⟨_, _, _, _, h, hcomma, hmore, rfl⟩
  · rintro (⟨entry, h, hb, rfl⟩ | ⟨entry, comma, between, more, h, hcomma, hmore, rfl⟩)
    · exact .last h hb
    · exact .more h hcomma hmore

theorem meets_angleList {n : Nat} {entry entry' : Reader TypeRef}
    (hentry : Meets c n always entry entry' (ReadsType .ref)) {fuel fuel' : Nat}
    (hfuel : n ≤ fuel + 1) (hfuel' : n ≤ fuel' + 1) :
    Meets c n always (angleList fuel entry) (angleList fuel' entry') (ReadsType .list) := by
  have hentries : Meets c (n - 1) always (commaSeparated entry fuel) (commaSeparated entry' fuel')
      (ReadsType .entries) :=
    meets_commaSeparated (fun _ _ _ => readsType_entries_iff) (hentry.mono (by omega)) (by omega)
      (by omega)
  refine Meets.congr ((meets_expect n _ _).bind_always fun angle =>
    hentries.bind_always fun entries =>
      (meets_closeAngle? _).bind_option (fun _ => meets_pure _ _ rfl) (meets_fail _ _ _)) ?_
  intro tokens l rest
  constructor
  · rintro ⟨angle, _, ⟨rfl, hangle⟩, entries, _, hentries, ⟨close, _, hclose, rfl, rfl⟩ | ⟨_, _, h⟩⟩
    · exact .list hangle hentries hclose
    · exact h.elim
  · intro h
    cases h with
    | list hangle hentries hclose =>
      exact ⟨_, _, ⟨rfl, hangle⟩, _, _, hentries, .inl ⟨_, _, hclose, rfl, rfl⟩⟩

theorem meets_angleList? {n : Nat} {entry entry' : Reader TypeRef}
    (hentry : Meets c n always entry entry' (ReadsType .ref)) {fuel fuel' : Nat}
    (hfuel : n ≤ fuel + 1) (hfuel' : n ≤ fuel' + 1) :
    Meets c n Option.isSome (angleList? fuel entry) (angleList? fuel' entry')
      (ReadsType .list?) := by
  refine Meets.congr (Meets.branch ((meets_angleList hentry hfuel hfuel').map some (by simp))
    (meets_pure n none rfl)) ?_
  intro tokens o rest
  constructor
  · rintro (⟨-, l, hl, rfl⟩ | ⟨hno, rfl, rfl⟩)
    · exact .someList hl
    · exact .noList hno
  · intro h
    cases h with
    | noList hno => exact .inr ⟨hno, rfl, rfl⟩
    | someList hl =>
      refine .inl ⟨?_, _, hl, rfl⟩
      cases hl with
      | list hangle => simp [hangle]

theorem meets_typeAfter? {n : Nat} (mark : Punctuation) {type type' : Reader TypeRef}
    (htype : Meets c n always type type' (ReadsType .ref)) :
    Meets c n Option.isSome (typeAfter? mark type) (typeAfter? mark type')
      (ReadsType (.after? mark)) := by
  refine Meets.congr ((meets_acceptMark? n mark).bind_option
    (fun _ => ((htype.mono (Nat.sub_le n 1)).map some (by simp))) (meets_pure n none rfl)) ?_
  intro tokens o rest
  constructor
  · rintro (⟨t, _, ⟨rfl, ht⟩, type, h, rfl⟩ | ⟨_, ⟨hno, rfl⟩, rfl, rfl⟩)
    · exact .after ht h
    · exact .notAfter hno
  · intro h
    cases h with
    | notAfter hno => exact .inr ⟨_, ⟨hno, rfl⟩, rfl, rfl⟩
    | after ht h => exact .inl ⟨_, _, ⟨rfl, ht⟩, _, h, rfl⟩

/-! ### References -/

theorem meets_typeBody {n : Nat} {again again' : Expectation → Reader TypeRef}
    (hagain : ∀ what, Meets c n always (again what) (again' what) (ReadsType .ref))
    {fuel fuel' : Nat} (hfuel : n ≤ fuel + 1) (hfuel' : n ≤ fuel' + 1) (what : Expectation) :
    Meets c (n + 1) always (typeBody fuel again what) (typeBody fuel' again' what)
      (ReadsType .ref) := by
  refine Meets.congr ((meets_expectName (n + 1) what).bind_always fun name =>
    (meets_angleList? (hagain _) hfuel hfuel').relax.bind_never fun generics =>
      (meets_typeAfter? .colon (hagain _)).relax.bind_never fun bound => meets_pure n _ rfl) ?_
  intro tokens type rest
  constructor
  · rintro ⟨name, _, ⟨rfl, hname⟩, generics, _, hgenerics, bound, _, hbound, rfl, rfl⟩
    exact .ref hname hgenerics hbound
  · intro h
    cases h with
    | ref hname hgenerics hbound =>
      exact ⟨_, _, ⟨rfl, hname⟩, _, _, hgenerics, _, _, hbound, rfl, rfl⟩

/-- With a bound that is large enough, a reference is read as if there were none. -/
theorem typeAt_eq {fuel : Nat} {s : ReaderState} (hs : s.cursor.remaining ≤ fuel)
    (what : Expectation) : typeAt fuel what s = typeBody (fuel - 1) (typeAt (fuel - 1)) what s := by
  cases fuel with
  | succ fuel => rfl
  | zero =>
    have hend := ahead_eq_nil hs
    have hname : expectName what s = fail (.expected what) s := by
      have haccept : accept? .identifier s = .ok none s := by simp [accept?_eq, hend]
      unfold expectName expect
      rw [bind_ok haccept]
    rw [typeBody, bind_error (hname.trans rfl)]
    rfl

theorem meets_typeAt (n : Nat) {fuel fuel' : Nat} (hfuel : n ≤ fuel + 1) (hfuel' : n ≤ fuel' + 1)
    (what : Expectation) :
    Meets c n always (typeAt fuel what) (typeAt fuel' what) (ReadsType .ref) := by
  induction n generalizing fuel fuel' what with
  | zero => exact fun s _ hn => absurd hn (Nat.not_lt_zero _)
  | succ n ih =>
    have hagain : ∀ what, Meets c n always (typeAt (fuel - 1) what) (typeAt (fuel' - 1) what)
        (ReadsType .ref) := fun what => ih (by omega) (by omega) what
    have hbody : Meets c (n + 1) always (typeBody (fuel - 1) (typeAt (fuel - 1)) what)
        (typeBody (fuel' - 1) (typeAt (fuel' - 1)) what) (ReadsType .ref) :=
      meets_typeBody hagain (by omega) (by omega) what
    exact hbody.of_eq (fun s _ hn => typeAt_eq (by omega) what)
      (fun s _ hn => typeAt_eq (by omega) what)

/-! ### Types can be tried -/

theorem silent_angleList {entry : Reader TypeRef} (h : Silent entry) (fuel : Nat) :
    Silent (angleList fuel entry) := by
  refine (silent_expect _ _).bind fun angle =>
    (silent_commaSeparated h fuel).bind fun entries => silent_closeAngle?.bind fun o => ?_
  rcases o with _ | close
  · exact silent_fail _
  · exact silent_pure _

theorem silent_angleList? {entry : Reader TypeRef} (h : Silent entry) (fuel : Nat) :
    Silent (angleList? fuel entry) := by
  refine (silent_check _).bind fun found => ?_
  split
  · exact (silent_angleList h fuel).map some
  · exact silent_pure none

theorem silent_typeAfter? (mark : Punctuation) {type : Reader TypeRef} (h : Silent type) :
    Silent (typeAfter? mark type) := by
  refine (silent_accept? _).bind fun o => ?_
  rcases o with _ | t
  · exact silent_pure none
  · exact h.map some

/-- Reading a reference to a type does not complain. -/
theorem silent_typeAt (fuel : Nat) (what : Expectation) : Silent (typeAt fuel what) := by
  induction fuel generalizing what with
  | zero => exact silent_fail _
  | succ fuel ih =>
    exact (silent_expect _ _).bind fun name => (silent_angleList? (ih _) fuel).bind fun generics =>
      (silent_typeAfter? .colon (ih _)).bind fun bound => silent_pure _

theorem silent_typeRef : Silent typeRef := fun s => silent_typeAt s.cursor.remaining _ s

theorem silent_typeArguments : Silent typeArguments := fun s =>
  silent_angleList (silent_typeAt s.cursor.remaining _) s.cursor.remaining s

/-! ### Rules that other rules call -/

theorem meets_typeRef (n : Nat) : Meets c n always typeRef typeRef (ReadsType .ref) :=
  meets_remaining fun fuel => meets_typeAt (fuel + 1) (Nat.le_refl _) (Nat.le_refl _) _

theorem meets_typeParameters? (n : Nat) :
    Meets c n Option.isSome typeParameters? typeParameters? (ReadsType .list?) :=
  meets_remaining fun fuel => meets_angleList?
    (meets_typeAt (fuel + 1) (Nat.le_refl _) (Nat.le_refl _) _) (Nat.le_refl _) (Nat.le_refl _)

theorem meets_typeArguments (n : Nat) :
    Meets c n always typeArguments typeArguments (ReadsType .list) :=
  meets_remaining fun fuel => meets_angleList
    (meets_typeAt (fuel + 1) (Nat.le_refl _) (Nat.le_refl _) _) (Nat.le_refl _) (Nat.le_refl _)

theorem meets_returnType? (n : Nat) :
    Meets c n Option.isSome returnType? returnType? (ReadsType (.after? .arrow)) :=
  meets_typeAfter? .arrow (meets_typeRef n)

/-- A name with its type. -/
def readsParam : Reading Param := fun tokens p rest => ∃ colon between,
  tokens = p.name :: colon :: between ∧ p.name.kind = .identifier ∧
    colon.kind = .punctuation .colon ∧ ReadsType .ref between p.type rest

theorem meets_parameter (n : Nat) : Meets c n always parameter parameter readsParam := by
  refine Meets.congr ((meets_expectName n _).bind_always fun name =>
    (meets_expectMark _ .colon _).bind_always fun colon =>
      (meets_typeRef _).bind_always fun type => meets_pure _ _ rfl) ?_
  intro tokens p rest
  constructor
  · rintro ⟨name, _, ⟨rfl, hname⟩, colon, _, ⟨rfl, hcolon⟩, type, _, htype, rfl, rfl⟩
    exact ⟨colon, _, rfl, hname, hcolon, htype⟩
  · rintro ⟨colon, _, rfl, hname, hcolon, htype⟩
    exact ⟨_, _, ⟨rfl, hname⟩, _, _, ⟨rfl, hcolon⟩, _, _, htype, rfl, rfl⟩

theorem readsParams_iff {tokens rest : List Token} {params : List Param} :
    ReadsParams tokens params rest ↔
      (∃ p, readsParam tokens p rest ∧ headKind? rest ≠ some (.punctuation .comma) ∧
        params = [p]) ∨
      ∃ p comma between more, readsParam tokens p (comma :: between) ∧
        comma.kind = .punctuation .comma ∧ ReadsParams between more rest ∧ params = p :: more := by
  constructor
  · intro h
    cases h with
    | last hname hcolon htype hb => exact .inl ⟨_, ⟨_, _, rfl, hname, hcolon, htype⟩, hb, rfl⟩
    | more hname hcolon htype hcomma hmore =>
      exact .inr ⟨_, _, _, _, ⟨_, _, rfl, hname, hcolon, htype⟩, hcomma, hmore, rfl⟩
  · rintro (⟨p, ⟨colon, between, rfl, hname, hcolon, htype⟩, hb, rfl⟩ |
      ⟨p, comma, _, more, ⟨colon, _, rfl, hname, hcolon, htype⟩, hcomma, hmore, rfl⟩)
    · exact .last hname hcolon htype hb
    · exact .more hname hcolon htype hcomma hmore

theorem meets_parameters (n : Nat) :
    Meets c n always parameters parameters ReadsParameters := by
  have hlist : Meets c n never (do listUpTo .rparen parameter (← remaining))
      (do listUpTo .rparen parameter (← remaining)) _ :=
    meets_remaining fun fuel => Meets.branch (meets_pure _ [] rfl)
      (meets_commaSeparated (fun _ _ _ => readsParams_iff) (meets_parameter _)
        (Nat.le_refl (fuel + 1)) (Nat.le_refl (fuel + 1))).relax
  have hall : Meets c n always
      (do
        let params ← (do listUpTo .rparen parameter (← remaining))
        let _ ← expectMark .rparen .parametersEnd
        return params)
      (do
        let params ← (do listUpTo .rparen parameter (← remaining))
        let _ ← expectMark .rparen .parametersEnd
        return params) _ :=
    hlist.bind_never fun params => (meets_expectMark n .rparen _).bind_always fun _ =>
      meets_pure _ params rfl
  refine (hall.congr ?_).of_eq (fun _ _ _ => rfl) (fun _ _ _ => rfl)
  intro tokens params rest
  constructor
  · rintro ⟨_, _, ⟨-, rfl, rfl⟩ | ⟨hno, h⟩, close, _, ⟨rfl, hclose⟩, rfl, rfl⟩
    · exact .none hclose
    · exact .some hno h hclose
  · intro h
    cases h with
    | none hclose => exact ⟨_, _, .inl ⟨by simp [hclose], rfl, rfl⟩, _, _, ⟨rfl, hclose⟩, rfl, rfl⟩
    | some hno h hclose => exact ⟨_, _, .inr ⟨hno, h⟩, _, _, ⟨rfl, hclose⟩, rfl, rfl⟩

end Reader
end CurlyScript
