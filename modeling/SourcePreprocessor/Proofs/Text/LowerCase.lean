import SourcePreprocessor.Expr.Function
import SourcePreprocessor.Proofs.Text.Occurrence

/-!
# Lower case and surroundings

`issubstr` compares lower-case forms of whole texts, and the form of a capital sigma depends on what
stands around it: it becomes a final sigma where it ends a word (`endsWord`). The form of a text
between two others (`lowerBetween`) therefore need not be the form of the text alone, and a text can
get lost where it stands.

> `lower_append_append`: the lower-case form of a text has the forms of its parts, each between the
> others, in their order;
> `lowerBetween_congr`: surroundings change the form of a text only through the ends of words;
> `count_finalSigma_lt`: ends of words can be counted in the lower-case form;
> `issubstr_occurrence`: so a text is found wherever its sigmas end words as in the text alone, and
> the texts that are found everywhere are those whose sigmas no surroundings can change.
-/

namespace SourcePreprocessor

namespace Text

variable {before after before' after' t u v : Text}

/-- Whether a capital sigma between two texts ends a word. -/
def endsWord (before after : Text) : Bool := startsCased before.reverse && !startsCased after

/-- The lower-case form of a character between two texts. -/
def lowerCharBetween (before after : Text) (c : Char) : Text :=
  if c = '\u03a3' then [if endsWord before after then '\u03c2' else '\u03c3'] else lowerChar c

/-- The lower-case form of a text between two others. -/
def lowerBetween (before after : Text) : Text → Text
  | [] => []
  | c :: t => lowerCharBetween before (t ++ after) c ++ lowerBetween (before ++ [c]) after t

theorem lowerAfter_reverse (before t : Text) :
    lowerAfter before.reverse t = lowerBetween before [] t := by
  induction t generalizing before with
  | nil => rfl
  | cons c t ih =>
    have hnext := ih (before ++ [c])
    rw [List.reverse_append, List.reverse_singleton, List.singleton_append] at hnext
    rw [lowerAfter, lowerBetween, List.append_nil, hnext]
    rfl

theorem lower_eq_lowerBetween (t : Text) : lower t = lowerBetween [] [] t :=
  lowerAfter_reverse [] t

theorem lowerBetween_append (before after u v : Text) :
    lowerBetween before after (u ++ v) =
      lowerBetween before (v ++ after) u ++ lowerBetween (before ++ u) after v := by
  induction u generalizing before with
  | nil => rw [List.nil_append, List.append_nil, lowerBetween, List.nil_append]
  | cons c u ih =>
    rw [List.cons_append, lowerBetween, lowerBetween, ih (before ++ [c])]
    simp only [List.append_assoc, List.singleton_append]

theorem lowerBetween_sigma (before after u v : Text) :
    lowerBetween before after (u ++ '\u03a3' :: v) =
      lowerBetween before ('\u03a3' :: v ++ after) u ++
        (if endsWord (before ++ u) (v ++ after) then '\u03c2' else '\u03c3') ::
          lowerBetween (before ++ u ++ ['\u03a3']) after v := by
  rw [lowerBetween_append, lowerBetween, lowerCharBetween, if_pos rfl, List.singleton_append]

/-- The lower-case form of a text consists of the forms of its parts. -/
theorem lower_append_append (x a y : Text) :
    lower (x ++ a ++ y) =
      lowerBetween [] (a ++ y) x ++ lowerBetween x y a ++ lowerBetween (x ++ a) [] y := by
  rw [lower_eq_lowerBetween, lowerBetween_append, lowerBetween_append]
  simp only [List.append_nil, List.nil_append]

/-! ## Sigmas that surroundings leave as they are -/

/-- A sigma of a text is the first character or a sigma of the rest. -/
theorem forall_sigma_cons {c : Char} {p : Text → Text → Prop}
    (h : ∀ u v, c :: t = u ++ '\u03a3' :: v → p u v) :
    (c = '\u03a3' → p [] t) ∧ ∀ u v, t = u ++ '\u03a3' :: v → p (c :: u) v :=
  ⟨fun hc => h [] t (hc ▸ rfl), fun u v ht => h (c :: u) v (ht ▸ rfl)⟩

/-- Surroundings change the form of a text only through the ends of words. -/
theorem lowerBetween_congr
    (h : ∀ u v, t = u ++ '\u03a3' :: v →
      endsWord (before ++ u) (v ++ after) = endsWord (before' ++ u) (v ++ after')) :
    lowerBetween before after t = lowerBetween before' after' t := by
  induction t generalizing before before' with
  | nil => rfl
  | cons c t ih =>
    obtain ⟨hfirst, hrest⟩ := forall_sigma_cons h
    have hhead :
        lowerCharBetween before (t ++ after) c = lowerCharBetween before' (t ++ after') c := by
      unfold lowerCharBetween
      split
      · next hc =>
        have hends := hfirst hc
        rw [List.append_nil, List.append_nil] at hends
        rw [hends]
      · rfl
    have htail : lowerBetween (before ++ [c]) after t = lowerBetween (before' ++ [c]) after' t := by
      refine ih fun u v ht => ?_
      rw [← List.append_cons, ← List.append_cons]
      exact hrest u v ht
    rw [lowerBetween, lowerBetween, hhead, htail]

theorem startsCased_append (s t : Text) :
    startsCased (s ++ t) = if s.all isCaseIgnorable then startsCased t else startsCased s := by
  induction s with
  | nil => rfl
  | cons c s ih =>
    unfold startsCased at ih ⊢
    cases hc : isCaseIgnorable c with
    | true => simpa [List.dropWhile_cons, hc] using ih
    | false => simp [hc]

theorem startsCased_of_all (h : t.all isCaseIgnorable = true) : startsCased t = false := by
  have hnil := startsCased_append t []
  rwa [List.append_nil, if_pos h] at hnil

theorem startsCased_letter : startsCased ['A'] = true := by decide +kernel

/-- A sigma that a letter in front of the text and a letter behind it leave as it is stays so in all
surroundings. -/
theorem endsWord_surroundings (hfront : endsWord ('A' :: u) v = endsWord u v)
    (hback : endsWord u (v ++ ['A']) = endsWord u v) (x y : Text) :
    endsWord (x ++ u) (v ++ y) = endsWord u v := by
  unfold endsWord at *
  rw [List.reverse_cons, startsCased_append, startsCased_letter] at hfront
  rw [startsCased_append, startsCased_letter] at hback
  rw [List.reverse_append, startsCased_append, startsCased_append]
  cases hu : u.reverse.all isCaseIgnorable with
  | true =>
    -- nothing of `u` decides, so a letter in front lets the sigma end a word unless `v` prevents it
    rw [startsCased_of_all hu, hu] at hfront
    have hv : startsCased v = true := by simpa using hfront
    have hdecides : v.all isCaseIgnorable = false := by
      cases hall : v.all isCaseIgnorable with
      | true => exact absurd hv (by rw [startsCased_of_all hall]; exact Bool.false_ne_true)
      | false => rfl
    simp [hv, hdecides]
  | false =>
    cases hv : v.all isCaseIgnorable with
    | true =>
      -- nothing of `v` decides, so a letter behind keeps the sigma from ending a word
      rw [startsCased_of_all hv, hv] at hback
      have hcased : startsCased u.reverse = false := by simpa using hback
      simp [hcased]
    | false => simp

/-! ## Counting ends of words -/

/-- Surroundings that end a word wherever others do give at least as many final sigmas. -/
theorem count_finalSigma_le
    (h : ∀ u v, t = u ++ '\u03a3' :: v →
      endsWord (before ++ u) (v ++ after) = true → endsWord (before' ++ u) (v ++ after') = true) :
    (lowerBetween before after t).count '\u03c2' ≤
      (lowerBetween before' after' t).count '\u03c2' := by
  induction t generalizing before before' with
  | nil => exact Nat.le_refl _
  | cons c t ih =>
    obtain ⟨hfirst, hrest⟩ := forall_sigma_cons h
    have hhead : (lowerCharBetween before (t ++ after) c).count '\u03c2' ≤
        (lowerCharBetween before' (t ++ after') c).count '\u03c2' := by
      unfold lowerCharBetween
      split
      · next hc =>
        have hends := hfirst hc
        rw [List.append_nil, List.append_nil] at hends
        cases hsigma : endsWord before (t ++ after) with
        | true => rw [hends hsigma]
        | false => simp
      · exact Nat.le_refl _
    have htail : (lowerBetween (before ++ [c]) after t).count '\u03c2' ≤
        (lowerBetween (before' ++ [c]) after' t).count '\u03c2' := by
      refine ih fun u v ht => ?_
      rw [← List.append_cons, ← List.append_cons]
      exact hrest u v ht
    rw [lowerBetween, lowerBetween, List.count_append, List.count_append]
    exact Nat.add_le_add hhead htail

/-- One more end of a word gives one more final sigma. -/
theorem count_finalSigma_lt
    (h : ∀ u v, t = u ++ '\u03a3' :: v →
      endsWord (before ++ u) (v ++ after) = true → endsWord (before' ++ u) (v ++ after') = true)
    (ht : t = u ++ '\u03a3' :: v) (hends : endsWord (before ++ u) (v ++ after) = false)
    (hends' : endsWord (before' ++ u) (v ++ after') = true) :
    (lowerBetween before after t).count '\u03c2' <
      (lowerBetween before' after' t).count '\u03c2' := by
  subst ht
  have hfront : (lowerBetween before ('\u03a3' :: v ++ after) u).count '\u03c2' ≤
      (lowerBetween before' ('\u03a3' :: v ++ after') u).count '\u03c2' := by
    refine count_finalSigma_le ?_
    rintro u₁ u₂ rfl
    simpa only [List.append_assoc, List.cons_append] using
      h u₁ (u₂ ++ '\u03a3' :: v) (List.append_assoc ..)
  have hback : (lowerBetween (before ++ u ++ ['\u03a3']) after v).count '\u03c2' ≤
      (lowerBetween (before' ++ u ++ ['\u03a3']) after' v).count '\u03c2' := by
    refine count_finalSigma_le ?_
    rintro v₁ v₂ rfl
    simpa only [List.append_assoc, List.cons_append, List.nil_append] using
      h (u ++ '\u03a3' :: v₁) v₂ (by simp)
  rw [lowerBetween_sigma, lowerBetween_sigma, hends, hends', List.count_append, List.count_append]
  have hplain : List.count '\u03c2' ('\u03c3' :: lowerBetween (before ++ u ++ ['\u03a3']) after v) =
      (lowerBetween (before ++ u ++ ['\u03a3']) after v).count '\u03c2' :=
    List.count_cons_of_ne (by decide)
  simp only [if_true, Bool.false_eq_true, if_false, hplain, List.count_cons_self]
  omega

/-- The number of sigmas, final or not, does not depend on the surroundings. -/
theorem count_sigmas (before after before' after' t : Text) :
    (lowerBetween before after t).count '\u03c2' + (lowerBetween before after t).count '\u03c3' =
      (lowerBetween before' after' t).count '\u03c2' +
        (lowerBetween before' after' t).count '\u03c3' := by
  induction t generalizing before before' with
  | nil => rfl
  | cons c t ih =>
    have hhead : ∀ b a,
        (lowerCharBetween b a c).count '\u03c2' + (lowerCharBetween b a c).count '\u03c3' =
          (lowerCharBetween [] [] c).count '\u03c2' +
            (lowerCharBetween [] [] c).count '\u03c3' := by
      intro b a
      unfold lowerCharBetween
      split
      · cases endsWord b a <;> rfl
      · rfl
    have hfirst := hhead before (t ++ after)
    have hsecond := hhead before' (t ++ after')
    have htail := ih (before ++ [c]) (before' ++ [c])
    rw [lowerBetween, lowerBetween]
    simp only [List.count_append]
    omega

/-! ## Texts that are found in all surroundings -/

theorem lowerCharBetween_letter (before after : Text) :
    lowerCharBetween before after 'A' = ['a'] := by
  have hlower : lowerChar 'A' = ['a'] := by decide
  unfold lowerCharBetween
  rw [if_neg (by decide), hlower]

/-- A letter in front of a text that is found there changes none of its sigmas. -/
theorem endsWord_front {a : Text} (h : lower a <:+: lower ('A' :: a))
    (ha : a = u ++ '\u03a3' :: v) :
    endsWord ('A' :: u) v = endsWord u v := by
  have hmono : ∀ u v, endsWord u v = true → endsWord ('A' :: u) v = true := by
    intro u v hends
    unfold endsWord at *
    rw [List.reverse_cons, startsCased_append, startsCased_letter]
    split <;> simp_all
  have hcount : (lower a).count '\u03c3' ≤ (lowerBetween ['A'] [] a).count '\u03c3' := by
    have hle := h.sublist.count_le '\u03c3'
    rw [lower_eq_lowerBetween ('A' :: a), lowerBetween, lowerCharBetween_letter] at hle
    exact hle
  cases hplain : endsWord u v with
  | true => exact hmono u v hplain
  | false =>
    refine Bool.eq_false_iff.2 fun hletter => ?_
    -- otherwise there is one final sigma more, and one other sigma less
    have hless : (lowerBetween [] [] a).count '\u03c2' < (lowerBetween ['A'] [] a).count '\u03c2' :=
      count_finalSigma_lt (fun u v _ => hmono u (v ++ [])) ha (by simpa using hplain)
        (by simpa using hletter)
    have htotal := count_sigmas [] [] ['A'] [] a
    rw [lower_eq_lowerBetween] at hcount
    omega

/-- A letter behind a text that is found there changes none of its sigmas. -/
theorem endsWord_back {a : Text} (h : lower a <:+: lower (a ++ ['A']))
    (ha : a = u ++ '\u03a3' :: v) :
    endsWord u (v ++ ['A']) = endsWord u v := by
  have hmono : ∀ u v, endsWord u (v ++ ['A']) = true → endsWord u v = true := by
    intro u v hends
    unfold endsWord at *
    rw [startsCased_append, startsCased_letter] at hends
    split at hends <;> simp_all
  have hcount : (lower a).count '\u03c2' ≤ (lowerBetween [] ['A'] a).count '\u03c2' := by
    have hle := h.sublist.count_le '\u03c2'
    rw [lower_eq_lowerBetween (a ++ ['A']), lowerBetween_append, lowerBetween,
      lowerCharBetween_letter, List.count_append] at hle
    exact hle
  cases hletter : endsWord u (v ++ ['A']) with
  | true => exact (hmono u v hletter).symm
  | false =>
    refine (Bool.eq_false_iff.2 fun hplain => ?_).symm
    -- otherwise there is one final sigma less
    have hless : (lowerBetween [] ['A'] a).count '\u03c2' < (lowerBetween [] [] a).count '\u03c2' :=
      count_finalSigma_lt (fun u v _ => by simpa using hmono u v) ha (by simpa using hletter)
        (by simpa using hplain)
    rw [lower_eq_lowerBetween] at hcount
    omega

end Text

open Text

theorem occursIn_iff {part whole : Text} :
    Function.occursIn part whole = true ↔ lower part <:+: lower whole := by
  unfold Function.occursIn contains
  rw [← not_iff_not, ← cut?_eq_none_iff, Bool.not_eq_true, Option.isSome_eq_false_iff,
    Option.isNone_iff_eq_none]

/-- **Occurrences that ignoring case keeps.** A text is found where it stands if each of its capital
sigmas ends a word there exactly when it ends a word in the text alone. A text is found in all
surroundings exactly when no surroundings change any of its capital sigmas in this way. -/
theorem issubstr_occurrence (a : Text) :
    (∀ x y, (∀ u v, a = u ++ '\u03a3' :: v → endsWord (x ++ u) (v ++ y) = endsWord u v) →
      callFunction "issubstr".toList [.str a, .str (x ++ a ++ y)] = .ok (.bool true)) ∧
    ((∀ x y, callFunction "issubstr".toList [.str a, .str (x ++ a ++ y)] = .ok (.bool true)) ↔
      ∀ u v, a = u ++ '\u03a3' :: v → ∀ x y, endsWord (x ++ u) (v ++ y) = endsWord u v) := by
  have hcall (b : Text) : callFunction "issubstr".toList [.str a, .str b] = .ok (.bool true) ↔
      lower a <:+: lower b := by
    rw [← occursIn_iff]
    show Except.ok (Value.bool (Function.occursIn a b)) = Except.ok (Value.bool true) ↔ _
    rw [Except.ok.injEq, Value.bool.injEq]
  have hfound (x y : Text)
      (h : ∀ u v, a = u ++ '\u03a3' :: v → endsWord (x ++ u) (v ++ y) = endsWord u v) :
      lower a <:+: lower (x ++ a ++ y) := by
    have hform : lowerBetween x y a = lower a := by
      rw [lower_eq_lowerBetween]
      refine lowerBetween_congr fun u v ha => ?_
      rw [h u v ha, List.nil_append, List.append_nil]
    rw [lower_append_append, hform]
    exact ⟨_, _, rfl⟩
  simp only [hcall]
  refine ⟨hfound, fun h u v ha => ?_, fun h x y => ?_⟩
  · have hfront := h ['A'] []
    have hback := h [] ['A']
    rw [List.append_nil] at hfront
    exact endsWord_surroundings (endsWord_front hfront ha) (endsWord_back hback ha)
  · exact hfound x y fun u v ha => h u v ha x y

/-- A word that ends in a sigma is found where it is a word. -/
theorem issubstr_occurrence_word :
    (∀ u v, "\u03a9\u03a3".toList = u ++ '\u03a3' :: v →
      endsWord ("\u03a6".toList ++ u) (v ++ " \u03a3".toList) = endsWord u v) ∧
    callFunction "issubstr".toList [.str "\u03a9\u03a3".toList,
      .str ("\u03a6".toList ++ "\u03a9\u03a3".toList ++ " \u03a3".toList)] = .ok (.bool true) := by
  have hends : ∀ u v, "\u03a9\u03a3".toList = u ++ '\u03a3' :: v →
      endsWord ("\u03a6".toList ++ u) (v ++ " \u03a3".toList) = endsWord u v := by
    intro u v h
    rcases u with _ | ⟨c, _ | ⟨d, u⟩⟩
    · exact absurd h (by simp)
    · obtain ⟨rfl, rfl⟩ : c = '\u03a9' ∧ v = [] := by simpa using h.symm
      decide +kernel
    · exact absurd h (by simp)
  exact ⟨hends, (issubstr_occurrence _).1 _ _ hends⟩

/-- A sigma alone is not found at the end of a word. -/
theorem issubstr_loses_sigma :
    callFunction "issubstr".toList [.str "\u03a3".toList,
      .str ("\u0391".toList ++ "\u03a3".toList ++ "".toList)] = .ok (.bool false) := by
  decide +kernel

end SourcePreprocessor
