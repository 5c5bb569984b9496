import CurlyScript.Proofs.Speculation
import CurlyScript.Proofs.Steady

/-!
# Type arguments or a comparison

After a variable or a member, an angle bracket opens the type arguments of a call or compares.
Which of them it does is a matter of grammar alone.  The grammar of types is written down here
without any lookahead, over tokens in which every shift has been replaced by the two brackets that
it may stand for.  The reader, which splits shifts one by one while it goes along and goes back when
it has come to a dead end, takes type arguments exactly where the grammar derives a list before a
parenthesis.

## Main definitions

* `halved` — tokens with two closing brackets in place of each shift.
* `DerivesType` — the tokens that the grammar derives for a type, a list or its entries.
* `TypeForm.Follows` — what may come after the tokens of a form so that they are not read on.

## Main results

* `ReadsType.derives`, `DerivesType.reads` — what is read is derived, and conversely.
* `readsType_list_iff` — a list is read before a parenthesis if and only if it is derived.
* `Reader.typeArguments_or_comparison` — type arguments are taken where the grammar has them, and
  elsewhere the angle bracket is left to the comparisons.
-/

namespace CurlyScript

/-! ### Shifts as two brackets -/

/-- The tokens that a token may stand for in a list of types: a shift is two closing brackets. -/
def Token.halves (t : Token) : List Token :=
  if t.kind = .operator .rsh then [halfShift t 0, halfShift t 1] else [t]

/-- Some tokens with two closing brackets in place of each shift. -/
def halved (tokens : List Token) : List Token := tokens.flatMap Token.halves

theorem halved_cons (t : Token) (tokens : List Token) :
    halved (t :: tokens) = t.halves ++ halved tokens := rfl

theorem halved_append (a b : List Token) : halved (a ++ b) = halved a ++ halved b :=
  List.flatMap_append

theorem halved_cons_of_ne {t : Token} (h : t.kind ≠ .operator .rsh) (tokens : List Token) :
    halved (t :: tokens) = t :: halved tokens := by
  rw [halved_cons, Token.halves, if_neg h, List.singleton_append]

theorem halved_cons_of_shift {t : Token} (h : t.kind = .operator .rsh) (tokens : List Token) :
    halved (t :: tokens) = halfShift t 0 :: halfShift t 1 :: halved tokens := by
  rw [halved_cons, Token.halves, if_pos h]
  rfl

/-- A token that is no bracket comes first among the halves if it comes first. -/
theorem eq_cons_of_halved {tokens q : List Token} {t : Token} (h : halved tokens = t :: q)
    (ht : t.kind ≠ .operator .greater) : ∃ rest, tokens = t :: rest ∧ halved rest = q := by
  cases tokens with
  | nil => cases h
  | cons u rest =>
    by_cases hshift : u.kind = .operator .rsh
    · rw [halved_cons_of_shift hshift] at h
      obtain ⟨rfl, -⟩ := List.cons.inj h
      exact absurd rfl ht
    · rw [halved_cons_of_ne hshift] at h
      obtain ⟨rfl, rfl⟩ := List.cons.inj h
      exact ⟨rest, rfl, rfl⟩

/-- Any other kind than that of a shift comes first among the halves if it comes first. -/
theorem headKind?_halved {tokens : List Token} {kind : Kind} (h : headKind? tokens = some kind)
    (hkind : kind ≠ .operator .rsh) : headKind? (halved tokens) = some kind := by
  obtain ⟨t, rest, rfl, rfl⟩ := headKind?_eq_some_iff.mp h
  rw [halved_cons_of_ne hkind, headKind?_cons]

/-- A closing bracket among the halves is one, or the first half of a shift. -/
theorem closes_of_halved {tokens q : List Token} {close : Token}
    (h : halved tokens = close :: q) (hclose : close.kind = .operator .greater) :
    ∃ rest, Closes tokens close rest ∧ halved rest = q := by
  cases tokens with
  | nil => cases h
  | cons u rest =>
    by_cases hshift : u.kind = .operator .rsh
    · rw [halved_cons_of_shift hshift] at h
      obtain ⟨rfl, rfl⟩ := List.cons.inj h
      exact ⟨_, .shift hshift, halved_cons_of_ne (t := halfShift u 1) nofun rest⟩
    · rw [halved_cons_of_ne hshift] at h
      obtain ⟨rfl, rfl⟩ := List.cons.inj h
      exact ⟨_, .angle hclose, rfl⟩

theorem Closes.halved_eq {tokens rest : List Token} {close : Token}
    (h : Closes tokens close rest) :
    halved tokens = close :: halved rest ∧ close.kind = .operator .greater := by
  cases h with
  | angle h => exact ⟨halved_cons_of_ne (by rw [h]; exact nofun) _, h⟩
  | @shift t rest h =>
    refine ⟨?_, rfl⟩
    rw [halved_cons_of_shift h, halved_cons_of_ne (t := halfShift t 1) nofun]

/-! ### The grammar -/

/-- The grammar of types, over tokens without shifts:

```text
ref     := NAME list? (':' ref)?
list    := '<' entries '>'
entries := ref (',' ref)*
```
-/
inductive DerivesType : (form : TypeForm) → List Token → form.Result → Prop
  /-- A name with its list and its bound. -/
  | ref {name : Token} {a b : List Token} {generics : Option TypeList} {bound : Option TypeRef}
      (hname : name.kind = .identifier) (hgenerics : DerivesType .list? a generics)
      (hbound : DerivesType (.after? .colon) b bound) :
    DerivesType .ref (name :: (a ++ b)) ⟨name, generics, bound⟩
  /-- No list. -/
  | noList : DerivesType .list? [] none
  /-- A list. -/
  | someList {a : List Token} {l : TypeList} (h : DerivesType .list a l) :
    DerivesType .list? a (some l)
  /-- No mark. -/
  | notAfter {mark : Punctuation} : DerivesType (.after? mark) [] none
  /-- A mark and a reference. -/
  | after {mark : Punctuation} {t : Token} {a : List Token} {type : TypeRef}
      (ht : t.kind = .punctuation mark) (h : DerivesType .ref a type) :
    DerivesType (.after? mark) (t :: a) (some type)
  /-- Entries between angle brackets. -/
  | list {angle close : Token} {a : List Token} {entries : List TypeRef}
      (hangle : angle.kind = .operator .less) (hentries : DerivesType .entries a entries)
      (hclose : close.kind = .operator .greater) :
    DerivesType .list (angle :: (a ++ [close])) ⟨angle, entries⟩
  /-- The last entry. -/
  | last {a : List Token} {entry : TypeRef} (h : DerivesType .ref a entry) :
    DerivesType .entries a [entry]
  /-- An entry, a comma and more entries. -/
  | more {comma : Token} {a b : List Token} {entry : TypeRef} {entries : List TypeRef}
      (h : DerivesType .ref a entry) (hcomma : comma.kind = .punctuation .comma)
      (hmore : DerivesType .entries b entries) :
    DerivesType .entries (a ++ comma :: b) (entry :: entries)

/-- What is read is derived: the halves of the tokens begin with what the grammar derives for the
result. -/
theorem ReadsType.derives {form : TypeForm} {tokens rest : List Token} {r : form.Result}
    (h : ReadsType form tokens r rest) :
    ∃ p, halved tokens = p ++ halved rest ∧ DerivesType form p r := by
  -- only a closing bracket can come out of a shift; every other token is its own half
  induction h with
  | @ref name _ _ _ _ _ hname _ _ ihGenerics ihBound =>
    obtain ⟨a, ha, hgenerics⟩ := ihGenerics
    obtain ⟨b, hb, hbound⟩ := ihBound
    refine ⟨name :: (a ++ b), ?_, .ref hname hgenerics hbound⟩
    rw [halved_cons_of_ne (by rw [hname]; exact nofun), ha, hb, List.cons_append, List.append_assoc]
  | noList => exact ⟨[], rfl, .noList⟩
  | someList _ ih =>
    obtain ⟨p, hp, hlist⟩ := ih
    exact ⟨p, hp, .someList hlist⟩
  | notAfter => exact ⟨[], rfl, .notAfter⟩
  | @after _ t _ _ _ ht _ ih =>
    obtain ⟨p, hp, htype⟩ := ih
    refine ⟨t :: p, ?_, .after ht htype⟩
    rw [halved_cons_of_ne (by rw [ht]; exact nofun), hp, List.cons_append]
  | @list angle close _ _ _ _ hangle _ hclose ih =>
    obtain ⟨p, hp, hentries⟩ := ih
    obtain ⟨hhalves, hkind⟩ := hclose.halved_eq
    refine ⟨angle :: (p ++ [close]), ?_, .list hangle hentries hkind⟩
    rw [halved_cons_of_ne (by rw [hangle]; exact nofun), hp, hhalves, List.cons_append,
      List.append_assoc, List.singleton_append]
  | last _ _ ih =>
    obtain ⟨p, hp, hentry⟩ := ih
    exact ⟨p, hp, .last hentry⟩
  | @more comma _ _ _ _ _ _ hcomma _ ih ihMore =>
    obtain ⟨p, hp, hentry⟩ := ih
    obtain ⟨q, hq, hentries⟩ := ihMore
    refine ⟨p ++ comma :: q, ?_, .more hentry hcomma hentries⟩
    rw [hp, halved_cons_of_ne (by rw [hcomma]; exact nofun), hq, List.append_assoc,
      List.cons_append]

/-! ### Reading what is derived -/

/-- What may come after the tokens of a form: nothing that a reader would take for more of it. -/
def TypeForm.Follows : TypeForm → List Token → Prop
  | .ref, q => headKind? q ≠ some (.operator .less) ∧ headKind? q ≠ some (.punctuation .colon)
  | .list?, q => headKind? q ≠ some (.operator .less)
  | .after? mark, q =>
    headKind? q ≠ some (.punctuation mark) ∧ headKind? q ≠ some (.operator .less) ∧
      headKind? q ≠ some (.punctuation .colon)
  | .list, _ => True
  | .entries, q =>
    headKind? q ≠ some (.operator .less) ∧ headKind? q ≠ some (.punctuation .colon) ∧
      headKind? q ≠ some (.punctuation .comma)

/-- A bound begins with a colon, so it can come after a name without a list. -/
theorem follows_of_bound {b q : List Token} {bound : Option TypeRef}
    (h : DerivesType (.after? .colon) b bound) (hq : headKind? q ≠ some (.operator .less)) :
    TypeForm.list?.Follows (b ++ q) := by
  cases h with
  | notAfter => exact hq
  | after ht =>
    rw [List.cons_append, TypeForm.Follows, headKind?_cons, ht]
    exact nofun

/-- What is derived is read: where the halves of some tokens begin with what the grammar derives
and nothing that continues it follows, the tokens are read to the result. -/
theorem DerivesType.reads {form : TypeForm} {p : List Token} {r : form.Result}
    (h : DerivesType form p r) {tokens q : List Token} (htokens : halved tokens = p ++ q)
    (hq : form.Follows q) : ∃ rest, halved rest = q ∧ ReadsType form tokens r rest := by
  -- what follows a part is the rest of the whole and then `q`, so both have to be left open
  induction h generalizing tokens q with
  | ref hname _ hbound ihGenerics ihBound =>
    rw [List.cons_append, List.append_assoc] at htokens
    obtain ⟨a, rfl, ha⟩ := eq_cons_of_halved htokens (by rw [hname]; exact nofun)
    obtain ⟨b, hb, hgenerics⟩ := ihGenerics ha (follows_of_bound hbound hq.1)
    obtain ⟨c, hc, hbound⟩ := ihBound hb ⟨hq.2, hq.1, hq.2⟩
    exact ⟨c, hc, .ref hname hgenerics hbound⟩
  | noList =>
    rw [List.nil_append] at htokens
    exact ⟨tokens, htokens, .noList fun h => hq (htokens ▸ headKind?_halved h nofun)⟩
  | someList _ ih =>
    obtain ⟨rest, hrest, hlist⟩ := ih htokens trivial
    exact ⟨rest, hrest, .someList hlist⟩
  | notAfter =>
    rw [List.nil_append] at htokens
    exact ⟨tokens, htokens, .notAfter fun h => hq.1 (htokens ▸ headKind?_halved h nofun)⟩
  | after ht _ ih =>
    obtain ⟨a, rfl, ha⟩ := eq_cons_of_halved htokens (by rw [ht]; exact nofun)
    obtain ⟨rest, hrest, htype⟩ := ih ha hq.2
    exact ⟨rest, hrest, .after ht htype⟩
  | @list angle close _ _ hangle _ hclose ih =>
    rw [List.cons_append, List.append_assoc] at htokens
    obtain ⟨a, rfl, ha⟩ := eq_cons_of_halved htokens (by rw [hangle]; exact nofun)
    have hfollows : TypeForm.entries.Follows (close :: q) := by
      simp only [TypeForm.Follows, headKind?_cons, hclose]
      exact ⟨nofun, nofun, nofun⟩
    obtain ⟨b, hb, hentries⟩ := ih ha hfollows
    -- the bracket that closes the list may be half of a shift, whose other half is left
    obtain ⟨rest, hrest, hq⟩ := closes_of_halved hb hclose
    exact ⟨rest, hq, .list hangle hentries hrest⟩
  | last _ ih =>
    obtain ⟨rest, hrest, hentry⟩ := ih htokens ⟨hq.1, hq.2.1⟩
    exact ⟨rest, hrest, .last hentry fun h => hq.2.2 (hrest ▸ headKind?_halved h nofun)⟩
  | @more comma _ b _ _ _ hcomma _ ih ihMore =>
    rw [List.append_assoc, List.cons_append] at htokens
    have hfollows : TypeForm.ref.Follows (comma :: (b ++ q)) := by
      simp only [TypeForm.Follows, headKind?_cons, hcomma]
      exact ⟨nofun, nofun⟩
    obtain ⟨between, hbetween, hentry⟩ := ih htokens hfollows
    obtain ⟨b', rfl, hb'⟩ := eq_cons_of_halved hbetween (by rw [hcomma]; exact nofun)
    obtain ⟨rest, hrest, hentries⟩ := ihMore hb' hq
    exact ⟨rest, hrest, .more hentry hcomma hentries⟩

/-- Some tokens begin with a list of types that a parenthesis follows directly: what comes before
the parenthesis is, up to shifts, what the grammar derives. -/
def BeginsWithTypeArguments (tokens : List Token) (l : TypeList) (after : List Token) : Prop :=
  ∃ p, tokens = p ++ after ∧ headKind? after = some (.punctuation .lparen) ∧
    DerivesType .list (halved p) l

/-- What is left of some tokens after all of their pieces are spelled is where they end. -/
theorem Spells.suffix {ps : List Piece} {a b : List Token} (h : Spells ps a b) : b <:+ a := by
  induction h with
  | nil => exact List.suffix_rfl
  | one _ _ ih | shift _ _ ih => exact ih.trans (List.suffix_cons _ _)

/-- Of the ends of some tokens, no two have the same halves. -/
theorem eq_of_halved_eq {tokens a b : List Token} (ha : a <:+ tokens) (hb : b <:+ tokens)
    (h : halved a = halved b) : a = b := by
  have hlonger : ∀ {x y : List Token}, x <:+ y → halved x = halved y → x = y := by
    rintro x _ ⟨z, rfl⟩ hxz
    rw [halved_append, List.self_eq_append_left] at hxz
    cases z with
    | nil => rfl
    | cons t z =>
      rw [halved_cons, List.append_eq_nil_iff, Token.halves] at hxz
      split at hxz <;> cases hxz.1
  rcases List.suffix_or_suffix_of_suffix ha hb with hab | hba
  · exact hlonger hab h
  · exact (hlonger hba h.symm).symm

/-- A list of types is read before a parenthesis if and only if the grammar derives it there. -/
theorem readsType_list_iff {tokens after : List Token} {l : TypeList}
    (hafter : headKind? after = some (.punctuation .lparen)) :
    ReadsType .list tokens l after ↔ BeginsWithTypeArguments tokens l after := by
  have hsuffix : ∀ {rest : List Token}, ReadsType .list tokens l rest →
      headKind? rest = some (.punctuation .lparen) → rest <:+ tokens := by
    intro rest h hrest
    have hspells := h.spells.spells (by rw [hrest]; exact nofun)
    exact hspells.suffix
  constructor
  · intro h
    obtain ⟨p, hp, hlist⟩ := h.derives
    obtain ⟨first, rfl⟩ := hsuffix h hafter
    rw [halved_append, List.append_cancel_right_eq] at hp
    exact ⟨first, rfl, hafter, hp ▸ hlist⟩
  · rintro ⟨first, htokens, -, hlist⟩
    have hhalves : halved tokens = halved first ++ halved after := by rw [htokens, halved_append]
    obtain ⟨rest, hrest, hreads⟩ := hlist.reads hhalves trivial
    -- what is left has the same halves, so it begins with the parenthesis as well
    have hhead : headKind? rest = some (.punctuation .lparen) := by
      have hparen := headKind?_halved hafter nofun
      rw [← hrest] at hparen
      obtain ⟨t, q, hq, ht⟩ := headKind?_eq_some_iff.mp hparen
      obtain ⟨rest', rfl, -⟩ := eq_cons_of_halved hq (by rw [ht]; exact nofun)
      rw [headKind?_cons, ht]
    have heq : rest = after := eq_of_halved_eq (hsuffix hreads hhead) ⟨first, htokens.symm⟩ hrest
    exact heq ▸ hreads

namespace Reader

variable {s : ReaderState}

/-! ### Taking type arguments -/

/-- A rule for types reads what its contract says, whether or not there has been an error before. -/
theorem reads_iff {α : Type} {r : Reader α} {moves : α → Bool} {P : Reading α}
    (hmeets : ∀ n, Meets s.cursor n moves r r P) (hsilent : Silent r)
    (hsteady : Steady anything r) (hs : s.cursor.Placed) (a : α) (rest : List Token) :
    (∃ t, r s = .ok a t ∧ t.cursor.ahead = rest) ↔ P s.cursor.ahead a rest := by
  -- the flag has no influence, so the contract for a reader without errors applies
  let clear : ReaderState := { s with hadError := false }
  have hclear := (hmeets _ clear hs.from_self (Nat.lt_succ_self _)).clean rfl a rest
  rw [show clear.cursor.ahead = s.cursor.ahead from rfl] at hclear
  rw [← hclear]
  have hflag := (hsilent clear).1
  have halong : s.Alongside clear := ⟨rfl, hs.stop_isEnd, hs.stop_isEnd, rfl⟩
  have hrun := hsteady s clear halong
  -- the two runs have the same outcome, and leave the same tokens
  generalize r s = x at hrun ⊢
  generalize r clear = y at hrun hflag ⊢
  cases hrun with
  | ok _ ht =>
    constructor
    · rintro ⟨t, ⟨⟩, rfl⟩
      exact ⟨_, rfl, hflag, ht.ahead_eq⟩
    · rintro ⟨t, ⟨⟩, -, rfl⟩
      exact ⟨_, rfl, ht.ahead_eq.symm⟩
  | error =>
    constructor
    · rintro ⟨t, ⟨⟩, -⟩
    · rintro ⟨t, ⟨⟩, -⟩

theorem typeArguments_iff (hs : s.cursor.Placed) (l : TypeList) (rest : List Token) :
    (∃ t, typeArguments s = .ok l t ∧ t.cursor.ahead = rest) ↔
      ReadsType .list s.cursor.ahead l rest :=
  reads_iff meets_typeArguments silent_typeArguments steady_typeArguments hs l rest

theorem typeRef_iff (hs : s.cursor.Placed) (type : TypeRef) (rest : List Token) :
    (∃ t, typeRef s = .ok type t ∧ t.cursor.ahead = rest) ↔
      ReadsType .ref s.cursor.ahead type rest :=
  reads_iff meets_typeRef silent_typeRef steady_typeRef hs type rest

theorem typeParameters?_iff (hs : s.cursor.Placed) (o : Option TypeList) (rest : List Token) :
    (∃ t, typeParameters? s = .ok o t ∧ t.cursor.ahead = rest) ↔
      ReadsType .list? s.cursor.ahead o rest :=
  reads_iff meets_typeParameters?
    (fun s => silent_angleList? (silent_typeAt s.cursor.remaining _) s.cursor.remaining s)
    steady_typeParameters? hs o rest

/-- Type arguments of a call are taken if and only if the grammar has them. -/
theorem callTypeArguments?_iff (hs : s.cursor.Placed) (l : TypeList) (after : List Token) :
    (∃ t, callTypeArguments? s = .ok (some l) t ∧ t.cursor.ahead = after) ↔
      BeginsWithTypeArguments s.cursor.ahead l after := by
  let noted := s.note (.tryingGenerics s.cursor.here.span)
  have hrun : callTypeArguments? s = keptTypeArguments? noted.cursor.checkpoint noted := rfl
  have hlist := typeArguments_iff (s := noted) hs l after
  constructor
  · rintro ⟨t, ht, rfl⟩
    have hparen := head_of_callTypeArguments? ht
    apply (readsType_list_iff hparen).mp
    apply hlist.mp
    rcases keptTypeArguments?_cases noted with ⟨l', t', hitem, -, hkept⟩ | ⟨-, e, -, -, hback⟩
    · cases ht.symm.trans (hrun.trans hkept)
      exact ⟨t, hitem, rfl⟩
    · cases ht.symm.trans (hrun.trans hback)
  · intro h
    have hparen : headKind? after = some (.punctuation .lparen) := by
      obtain ⟨_, -, hparen, -⟩ := h
      exact hparen
    obtain ⟨t, ht, rfl⟩ := hlist.mpr ((readsType_list_iff hparen).mpr h)
    rcases keptTypeArguments?_cases noted with ⟨l', t', hitem, -, hkept⟩ | ⟨hnone, -⟩
    · cases ht.symm.trans hitem
      exact ⟨t, hrun.trans hkept, rfl⟩
    · exact absurd hparen (hnone l t ht)

/-! ### Leaving the bracket to the comparisons -/

section Angle

variable {t : ReaderState} {e : Expr} (fuel : Nat) (again : Rule → Reader Expr)
  (hangle : headKind? s.cursor.ahead = some (.operator .less))

include hangle

theorem acceptMark?_before_angle (mark : Punctuation) : acceptMark? mark s = .ok none s := by
  have hmark : headKind? s.cursor.ahead ≠ some (.punctuation mark) := by
    rw [hangle]
    exact nofun
  rw [acceptMark?, accept?_eq, if_neg hmark]

/-- Only a level that compares takes an angle bracket. -/
theorem acceptOperator?_before_angle {ops : List Operator} (hops : Operator.less ∉ ops) :
    acceptOperator? ops s = .ok none s := by
  obtain ⟨angle, rest, hahead, hkind⟩ := headKind?_eq_some_iff.mp hangle
  have hcontains : ¬ ops.contains Operator.less = true := by
    rw [List.contains_iff_mem]
    exact hops
  rw [acceptOperator?_eq, here_of_cons hahead, hkind]
  dsimp only
  rw [if_neg hcontains]
  rfl

/-- A place before an angle bracket that opens no type arguments has no suffix. -/
theorem suffix?_before_angle (he : e.isPlace = true) (hnone : callTypeArguments? s = .ok none t) :
    suffix? fuel again e s = .ok none t := by
  have hgeneric : genericCall? fuel again e s = .ok none t := bind_ok hnone
  have hplace : placeSuffix? fuel again e s = .ok none t := by
    unfold placeSuffix?
    rw [bind_ok (check_eq _ s), hangle]
    exact hgeneric
  unfold suffix?
  rw [bind_ok (acceptMark?_before_angle hangle .dot)]
  simp only [Option.isSome_none, Bool.false_eq_true, if_false]
  rw [bind_ok (acceptMark?_before_angle hangle .lparen)]
  simp only [Option.isSome_none, Bool.false_eq_true, if_false]
  rw [bind_ok (acceptMark?_before_angle hangle .lbracket)]
  simp only [Option.isSome_none, Bool.false_eq_true, if_false, he, if_true]
  exact hplace

/-- An operand before an angle bracket is what every tighter level than the comparisons reads. -/
theorem binary_before_angle {levels : List Level} {start : ReaderState}
    (hlevels : ∀ level ∈ levels, Operator.less ∉ level.operators)
    (hunary : unary fuel again start = .ok e s) : binary fuel again levels start = .ok e s := by
  induction levels with
  | nil =>
    have hpower : acceptOperator? [.power] s = .ok none s :=
      acceptOperator?_before_angle hangle (by decide)
    exact (bind_ok hunary).trans (bind_ok hpower)
  | cons level tighter ih =>
    obtain ⟨hlevel, htighter⟩ := List.forall_mem_cons.mp hlevels
    have hnone := acceptOperator?_before_angle hangle hlevel
    have hchain (count : Nat) :
        chain level.operators (binary fuel again tighter) count e s = .ok e s := by
      cases count with
      | zero => rfl
      | succ count => exact bind_ok hnone
    have hcompare : comparison level.operators (binary fuel again tighter) e s = .ok e s :=
      bind_ok hnone
    unfold binary
    rw [bind_ok (ih htighter)]
    split
    · exact hchain fuel
    · exact hcompare

end Angle

/-- No operator belongs to two levels. -/
theorem pairwise_binaryLevels :
    binaryLevels.Pairwise fun a b => ∀ op ∈ a.operators, op ∉ b.operators := by
  decide

/-- What an operand that ends before an angle bracket comes to: the levels that are tighter than
the comparisons read nothing but the operand, and the level of comparisons, which has it as its
left side, takes the bracket as its operator. -/
structure LeftToCompare (fuel : Nat) (again : Rule → Reader Expr) (start : ReaderState) (e : Expr)
    (t : ReaderState) : Prop where
  /-- Tighter levels read the operand. -/
  tighter : ∀ looser level tighter, binaryLevels = looser ++ level :: tighter →
    Operator.less ∈ level.operators → binary fuel again tighter start = .ok e t
  /-- The comparison reads the operand as its left side. -/
  left : ∀ looser level tighter, binaryLevels = looser ++ level :: tighter →
    Operator.less ∈ level.operators → binary fuel again (level :: tighter) start =
      comparison level.operators (binary fuel again tighter) e t
  /-- The comparison takes the bracket. -/
  operator : ∀ level ∈ binaryLevels, Operator.less ∈ level.operators →
    acceptOperator? level.operators t = .ok (some t.cursor.here) (past t)

theorem leftToCompare {t start : ReaderState} {e : Expr} {fuel : Nat} {again : Rule → Reader Expr}
    (hangle : headKind? t.cursor.ahead = some (.operator .less))
    (hunary : unary fuel again start = .ok e t) : LeftToCompare fuel again start e t := by
  have htighter : ∀ looser level tighter, binaryLevels = looser ++ level :: tighter →
      Operator.less ∈ level.operators → binary fuel again tighter start = .ok e t := by
    intro looser level tighter hlevels hless
    have hpairwise := pairwise_binaryLevels
    rw [hlevels, List.pairwise_append, List.pairwise_cons] at hpairwise
    exact binary_before_angle fuel again hangle
      (fun other hother => hpairwise.2.1.1 other hother .less hless) hunary
  refine ⟨htighter, ?_, ?_⟩
  · intro looser level tighter hlevels hless
    have hchains : ∀ level ∈ binaryLevels, Operator.less ∈ level.operators →
        level.chains = false := by decide
    have hmem : level ∈ binaryLevels := by
      rw [hlevels]
      exact List.mem_append_right _ List.mem_cons_self
    refine (bind_ok (htighter looser level tighter hlevels hless)).trans ?_
    rw [hchains level hmem hless]
    rfl
  · intro level _ hless
    obtain ⟨angle, rest, hahead, hkind⟩ := headKind?_eq_some_iff.mp hangle
    rw [acceptOperator?_eq, here_of_cons hahead, hkind]
    dsimp only
    rw [if_pos (List.contains_iff_mem.mpr hless)]
    exact congrArg (fun token => EStateM.Result.ok (some token) (past t)) (here_of_cons hahead)

/-- **Generics or less-than: the grammar decides.**

Take any state that a reader can reach, with an angle bracket next, after an expression that is a
place.  Type arguments are found if and only if the tokens begin with a list of types, as the
grammar derives it, that a parenthesis follows directly; a shift counts for two closing brackets
there.  The list is that of the derivation, and the cursor is then before the parenthesis.

In every other case the attempt is given up with the cursor where it was.  The expression has no
further suffix, and whatever operand it is read for, the tighter levels leave the bracket alone and
the level of comparisons takes it. -/
theorem typeArguments_or_comparison (stream : TokenStream) (course : Course) {e : Expr}
    (he : e.isPlace = true)
    (hangle : headKind? (course.run (.ofStream stream)).cursor.ahead = some (.operator .less)) :
    let s := course.run (.ofStream stream)
    (∀ l after, (∃ t, callTypeArguments? s = .ok (some l) t ∧ t.cursor.ahead = after) ↔
      BeginsWithTypeArguments s.cursor.ahead l after) ∧
    ((¬ ∃ l after, BeginsWithTypeArguments s.cursor.ahead l after) →
      ∃ t, callTypeArguments? s = .ok none t ∧ t.cursor = s.cursor ∧
      ∀ fuel again count, suffixes fuel again (count + 1) e s = .ok e t ∧
        ∀ start, unary fuel again start = suffixes fuel again (count + 1) e s →
          LeftToCompare fuel again start e t) := by
  intro s
  have hplaced : s.cursor.Placed :=
    (placed_ofStream stream).reaches (course.leads_run (.ofStream stream)).reaches
  have hiff := callTypeArguments?_iff hplaced
  refine ⟨hiff, fun hnot => ?_⟩
  obtain ⟨found, t, hrun, hback⟩ := leavesNoTrace_callTypeArguments? hplaced
  cases found with
  | some l => exact absurd ⟨l, _, (hiff l _).mp ⟨t, hrun, rfl⟩⟩ hnot
  | none =>
    have hcursor : t.cursor = s.cursor := (hback rfl).1
    refine ⟨t, hrun, hcursor, fun fuel again count => ?_⟩
    have hsuffixes : suffixes fuel again (count + 1) e s = .ok e t :=
      bind_ok (suffix?_before_angle fuel again hangle he hrun)
    refine ⟨hsuffixes, fun start hstart => ?_⟩
    exact leftToCompare (hcursor ▸ hangle) (hstart.trans hsuffixes)

/-- After `f`, a shift that ends two lists before a parenthesis makes type arguments.  After `a`,
only half of the shift belongs to the list, no parenthesis follows that half, and the bracket is
left to the comparisons. -/
theorem typeArguments_or_comparison_shift :
    let lists := (Course.advance .done).run (.ofStream (Frontend.lex "m" "f<A<B>>(x)").1)
    let half := (Course.advance .done).run (.ofStream (Frontend.lex "m" "a<b>>(c)").1)
    (∃ l after, BeginsWithTypeArguments lists.cursor.ahead l after) ∧
    let name := half.cursor.behind.headD half.cursor.stop
    ∃ t, callTypeArguments? half = .ok none t ∧ t.cursor = half.cursor ∧
      suffixes 6 (ruleAt 6) 6 (.ident name) half = .ok (.ident name) t := by
  have hlists := Lexer.tokenize_eq_within 20 (l := .ofText "m" "f<A<B>>(x)") (by decide)
  have hhalf := Lexer.tokenize_eq_within 20 (l := .ofText "m" "a<b>>(c)") (by decide)
  intro lists half
  have hangle : headKind? lists.cursor.ahead = some (.operator .less) := by
    simp only [lists, Frontend.lex, hlists]
    decide +kernel
  have hangle' : headKind? half.cursor.ahead = some (.operator .less) := by
    simp only [half, Frontend.lex, hhalf]
    decide +kernel
  have hfound : (match callTypeArguments? lists with
      | .ok found _ => found.isSome
      | .error _ _ => false) = true := by
    simp only [lists, Frontend.lex, hlists]
    decide +kernel
  have hnone : (match callTypeArguments? half with
      | .ok found _ => found.isSome
      | .error _ _ => false) = false := by
    simp only [half, Frontend.lex, hhalf]
    decide +kernel
  constructor
  · obtain ⟨hiff, -⟩ := typeArguments_or_comparison _ _ (e := .ident lists.cursor.here) rfl hangle
    cases hrun : callTypeArguments? lists with
    | ok found t =>
      rw [hrun] at hfound
      obtain ⟨l, rfl⟩ := Option.isSome_iff_exists.mp hfound
      exact ⟨l, _, (hiff l _).mp ⟨t, hrun, rfl⟩⟩
    | error e t =>
      rw [hrun] at hfound
      cases hfound
  · obtain ⟨hiff, hleft⟩ :=
      typeArguments_or_comparison _ _ (e := .ident (half.cursor.behind.headD half.cursor.stop)) rfl
        hangle'
    obtain ⟨t, hrun, hcursor, hmore⟩ := hleft (by
      rintro ⟨l, after, hbegins⟩
      obtain ⟨t, hrun, -⟩ := (hiff l after).mpr hbegins
      rw [hrun] at hnone
      cases hnone)
    exact ⟨t, hrun, hcursor, (hmore 6 (ruleAt 6) 5).1⟩

end Reader
end CurlyScript
