import SourcePreprocessor.Expr.Eval
import SourcePreprocessor.Proofs.Expr.RoundTrip
import SourcePreprocessor.Proofs.Text.Parts

/-!
# The names of an expression

The parser takes the names of an expression from its text, and evaluation asks for those names and
no others. A text alone is one name exactly when it is a name for the directives too, except for the
two words that are booleans:

> `isName_iff_tokenize`: a name is a text whose only lexeme is the text as a name, or one of the
> two words;
> `eval_agreeOn`: an expression has the same value in two contexts that agree on every name that its
> text mentions.
-/

namespace SourcePreprocessor

/-- The contexts give the same value to every name that the text mentions. -/
def Context.AgreeOn (t : Text) (c c' : Context) : Prop :=
  ∀ name, Text.Mentions name t → c name = c' name

theorem Context.AgreeOn.mono {t u : Text} {c c' : Context} (h : c.AgreeOn t c') (hu : u <:+: t) :
    c.AgreeOn u c' := fun name hname => h name (hname.mono hu)

namespace Item

variable {c c' : Context}

mutual

theorem eval_congr (item : Item) (h : item.All (fun _ => True) fun name => c name = c' name) :
    item.eval c = item.eval c' := by
  match item with
  | .value v => rfl
  | .reference name _ =>
    have hname : c name = c' name := h
    rw [eval, eval, hname]
  | .call name arguments _ => rw [eval, eval, evalAll_congr arguments h.2]
  | .unary op operand _ => rw [eval, eval, eval_congr operand h]
  | .binary op left right _ => rw [eval, eval, eval_congr left h.1, eval_congr right h.2]

theorem evalAll_congr (items : List Item)
    (h : AllOf (fun _ => True) (fun name => c name = c' name) items) :
    evalAll c items = evalAll c' items := by
  match items with
  | [] => rfl
  | item :: items => rw [evalAll, evalAll, eval_congr item h.1, evalAll_congr items h.2]

end

end Item

/-! ## A name alone -/

/-- A name alone is one lexeme. -/
theorem tokenize_isName {t : Text} (h : isName t = true) :
    tokenize t = .ok [⟨nameToken t, 1⟩] := by
  match t with
  | [] => nomatch h
  | c :: t =>
    rw [isName, Bool.and_eq_true, List.all_eq_true] at h
    obtain ⟨hc, ht⟩ := h
    have htake : (t ++ []).takeWhile isNamePart = t := by
      rw [List.append_nil, List.takeWhile_eq_self_iff.2 ht]
    have hscan := scan_lexeme (isSkipped_of_isNamePart (isNamePart_of_isNameStart hc))
      (lexemeAt_word hc htake) 1
    rw [List.append_nil] at hscan
    exact hscan

theorem nameToken_of_isWord {t : Text} (h : IsWord t) : nameToken t = .name t := by
  unfold nameToken
  rw [if_neg h.2.1, if_neg h.2.2]

/-- The names are the texts that are a single lexeme, which is the text as a name, and the two words
for the booleans. -/
theorem isName_iff_tokenize (t : Text) : isName t = true ↔
    tokenize t = .ok [⟨.name t, 1⟩] ∨ t = "true".toList ∨ t = "false".toList := by
  constructor
  · intro h
    by_cases hwords : t = "true".toList ∨ t = "false".toList
    · exact .inr hwords
    · rw [not_or] at hwords
      left
      rw [tokenize_isName h, nameToken_of_isWord ⟨h, hwords⟩]
  · rintro (h | rfl | rfl)
    -- whatever a scan finds as a name is one
    · exact scan_isScanned t h _ List.mem_cons_self
    · decide
    · decide

/-- A name alone is an expression that refers to the variable of the name in lower case. -/
theorem parse_isWord {t : Text} (h : IsWord t) :
    parse t = .ok ⟨.reference (Text.lower t) 1, t⟩ := by
  have hscan : tokenize t = .ok [⟨.name t, 1⟩] := by
    rw [tokenize_isName h.1, nameToken_of_isWord h]
  have hderives : Derives [⟨.name t, 1⟩] (.reference (Text.lower t) 1) :=
    Grammar.Tier.loosen (Nat.zero_le 4) (.unary (.primary .reference))
  exact parse_of_derives hscan hderives

/-! ## The names that a text mentions -/

theorem numeralToken_ne_name {t name : Text} : numeralToken t ≠ .ok (.name name) := by
  unfold numeralToken integerToken
  split
  · split
    · nofun
    · split <;> nofun
  · split
    · nofun
    · split <;> nofun

/-- A name among the lexemes of a text is a part of the text. -/
theorem infix_of_mem_tokenize {source name : Text} {ls : List Lexeme} {column : Nat}
    (h : tokenize source = .ok ls) (hmem : ⟨.name name, column⟩ ∈ ls) : name <:+: source := by
  obtain ⟨c, rest, hrest, hfound⟩ := exists_lexemeAt_of_scan source h _ hmem
  refine List.IsInfix.trans ?_ hrest.isInfix
  rcases lexemeAt_cases hfound with ⟨t, ht⟩ | ⟨-, htoken⟩ | ⟨t, ht⟩ | ⟨s, hs⟩
  · exact absurd ht numeralToken_ne_name
  · -- the two names that are booleans give another token
    unfold nameToken at htoken
    split at htoken
    · nomatch htoken
    · split at htoken
      · nomatch htoken
      · obtain rfl := Token.name.inj htoken
        have hpart : rest.takeWhile isNamePart <+: rest := List.takeWhile_prefix isNamePart
        exact ((List.prefix_cons_inj c).2 hpart).isInfix
  · nomatch ht
  · nomatch hs

/-- The contexts agree on the names that the tokens of the text make. -/
theorem Context.AgreeOn.makes {source : Text} {c c' : Context} (h : c.AgreeOn source c')
    {ls : List Lexeme} (hscan : tokenize source = .ok ls) :
    ∀ lexeme ∈ ls, lexeme.token.Makes (fun _ => True) fun name => c name = c' name := by
  intro lexeme hmem
  obtain ⟨token, column⟩ := lexeme
  match token with
  | .name name => exact h _ ⟨name, infix_of_mem_tokenize hscan hmem, rfl⟩
  | .int _ | .float _ | .str _ | .bool _ | .symbol _ => trivial

/-- An expression has the same value in two contexts that agree on every name that its text
mentions. -/
theorem eval_agreeOn {source : Text} {e : Expression} {c c' : Context} (h : parse source = .ok e)
    (hagree : c.AgreeOn source c') : e.eval c = e.eval c' := by
  have hall : e.root.All (fun _ => True) fun name => c name = c' name :=
    all_of_parse h fun _ hscan => hagree.makes hscan
  unfold Expression.eval
  rw [e.root.eval_congr hall]

/-- The values and the names of a list of expressions are those that the tokens make. -/
theorem all_of_parseItems {value : Value → Prop} {name : Text → Prop} {endColumn bound : Nat}
    {first : Bool} {lexemes : List Lexeme} {items : List Item}
    (h : parseItems endColumn bound first lexemes = .ok items)
    (hmakes : ∀ lexeme ∈ lexemes, lexeme.token.Makes value name) :
    ∀ item ∈ items, item.All value name := by
  induction bound generalizing first lexemes items with
  | zero => nomatch h
  | succ bound ih =>
    rw [parseItems] at h
    split at h
    · nomatch h
    · next item? d rest hread =>
      obtain ⟨ls, left, rfl, hd, hls⟩ := (Parser.soundAt endColumn _).expression hread
      obtain ⟨hfirst, hleft⟩ := List.forall_mem_append.1 hmakes
      -- what comes after a delimiter is all of the lexemes that are left but the delimiter
      have hrest : ∀ lexeme ∈ rest, lexeme.token.Makes value name := by
        rcases Parser.delimiter?_eq_some hd with ⟨rfl, rfl, rfl⟩ | ⟨-, rfl⟩ | ⟨-, rfl⟩
        · exact hleft
        · exact (List.forall_mem_cons.1 hleft).2
        · exact (List.forall_mem_cons.1 hleft).2
      split at h
      · next item _ =>
        obtain ⟨others, hothers, rfl⟩ := map_eq_ok_iff.1 h
        exact List.forall_mem_cons.2 ⟨Grammar.Tier.all hls hfirst, ih hothers hrest⟩
      · next item _ =>
        obtain rfl := Except.ok.inj h
        exact List.forall_mem_singleton.2 (Grammar.Tier.all hls hfirst)
      · split at h <;> nomatch h
      · nomatch h
      · nomatch h

/-- In two contexts that agree in this way, each expression of a list has the same value. -/
theorem eval_agreeOn_of_parseList {source : Text} {es : List Expression} {c c' : Context}
    (h : parseList source = .ok es) (hagree : c.AgreeOn source c') :
    ∀ e ∈ es, e.eval c = e.eval c' := by
  obtain ⟨ls, hlexemes, hrest⟩ := bind_eq_ok_iff.1 h
  obtain ⟨items, hitems, hes⟩ := bind_eq_ok_iff.1 hrest
  obtain rfl := Except.ok.inj hes
  have hall := all_of_parseItems hitems (hagree.makes (mapError_eq_ok_iff.1 hlexemes))
  intro e he
  obtain ⟨item, hitem, rfl⟩ := List.mem_map.1 he
  unfold Expression.eval
  rw [item.eval_congr (hall item hitem)]

theorem condition_agreeOn {source : Text} {e : Expression} {c c' : Context}
    (h : parse source = .ok e) (hagree : c.AgreeOn source c') : e.condition c = e.condition c' := by
  unfold Expression.condition
  rw [eval_agreeOn h hagree]

theorem source_of_parse {source : Text} {e : Expression} (h : parse source = .ok e) :
    e.source = source := by
  obtain ⟨ls, -, -, hsource⟩ := parse_eq_ok_iff.1 h
  exact hsource

end SourcePreprocessor
