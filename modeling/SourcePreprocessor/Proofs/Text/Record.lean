import SourcePreprocessor.Expr.Function

/-!
# Records of comma separated values

A record is a list of fields with a comma between each two of them, and it ends with its text or at
a line break. A field that starts with a quote goes on to its closing quote, with two quotes for
each quote in it; any other field goes on to what ends it. How far a field goes can therefore not be
said without what follows it:

> `field?_escapeCsv`: in front of anything that ends a field, a written field is read as its text,
> up to there;
> `record?_join`: so fields that are written with commas between them are read as one record.
-/

namespace SourcePreprocessor.Text

/-- Whether a record ends before the character. -/
def endsRecord (c : Char) : Bool := c = '\r' || c = '\n'

/-- Whether a field that has no quotes ends before the character. -/
def endsField (c : Char) : Bool := c = ',' || endsRecord c

/-- The field that goes on after its opening quote, and what follows its closing one. -/
def quotedField? : Text → Option (Text × Text)
  | [] => none
  | '"' :: '"' :: rest => (quotedField? rest).map fun (field, after) => ('"' :: field, after)
  | '"' :: rest => some ([], rest)
  | c :: rest => (quotedField? rest).map fun (field, after) => (c :: field, after)

/-- The field at the start of a text, and what follows it. -/
def field? : Text → Option (Text × Text)
  | '"' :: rest => quotedField? rest
  | t => some (t.takeWhile (!endsField ·), t.dropWhile (!endsField ·))

theorem suffix_of_quotedField? {t field rest : Text} (h : quotedField? t = some (field, rest)) :
    rest <:+ t := by
  fun_induction quotedField? t generalizing field with
  | case1 => nomatch h
  | case2 t ih =>
    obtain ⟨⟨field, after⟩, hfield, heq⟩ := Option.map_eq_some_iff.1 h
    obtain ⟨-, rfl⟩ := Prod.mk.inj heq
    exact (ih hfield).trans ((List.suffix_cons _ t).trans (List.suffix_cons _ _))
  | case3 t =>
    obtain ⟨-, rfl⟩ := Prod.mk.inj (Option.some.inj h)
    exact List.suffix_cons _ t
  | case4 c t _ _ ih =>
    obtain ⟨⟨field, after⟩, hfield, heq⟩ := Option.map_eq_some_iff.1 h
    obtain ⟨-, rfl⟩ := Prod.mk.inj heq
    exact (ih hfield).trans (List.suffix_cons c t)

/-- What follows a field is the end of the text. -/
theorem suffix_of_field? {t field rest : Text} (h : field? t = some (field, rest)) : rest <:+ t := by
  unfold field? at h
  split at h
  · exact (suffix_of_quotedField? h).trans (List.suffix_cons _ _)
  · obtain ⟨-, rfl⟩ := Prod.mk.inj (Option.some.inj h)
    exact List.dropWhile_suffix _

/-- The fields of the record at the start of a text, and what follows it. -/
def record? (t : Text) : Option (List Text × Text) :=
  match _h : field? t with
  | none => none
  | some (field, ',' :: rest) => (record? rest).map fun (fields, after) => (field :: fields, after)
  | some (field, rest) => if rest.head?.all endsRecord then some ([field], rest) else none
termination_by t.length
decreasing_by
  have hlength := (suffix_of_field? _h).length_le
  exact hlength

/-- A comma after a field is followed by the other fields. -/
theorem record?_comma {t field rest : Text} (h : field? t = some (field, ',' :: rest)) :
    record? t = (record? rest).map fun (fields, after) => (field :: fields, after) := by
  rw [record?]
  split
  · next hnone => cases h.symm.trans hnone
  · next hsome =>
    cases h.symm.trans hsome
    rfl
  · next hcomma hsome =>
    cases h.symm.trans hsome
    exact absurd rfl (hcomma _)

/-- A field that nothing or a line break follows is the last one. -/
theorem record?_last {t field rest : Text} (h : field? t = some (field, rest))
    (hrest : rest.head?.all endsRecord = true) : record? t = some ([field], rest) := by
  rw [record?]
  split
  · next hnone => cases h.symm.trans hnone
  · next hsome =>
    cases h.symm.trans hsome
    nomatch hrest
  · next hsome =>
    cases h.symm.trans hsome
    exact if_pos hrest

/-! ## What is written -/

/-- Two quotes stand for one, up to a quote that no other follows. -/
theorem quotedField?_doubleQuotes (t : Text) {rest : Text} (h : rest.head? ≠ some '"') :
    quotedField? (doubleQuotes t ++ '"' :: rest) = some (t, rest) := by
  induction t with
  | nil =>
    show quotedField? ('"' :: rest) = _
    rw [quotedField?]
    intro others hothers
    rw [hothers] at h
    exact h rfl
  | cons c t ih =>
    unfold doubleQuotes at ih ⊢
    rw [List.flatMap_cons, List.append_assoc]
    split
    · next hquote =>
      subst hquote
      show quotedField? ('"' :: '"' :: (_ ++ '"' :: rest)) = _
      rw [quotedField?, ih]
      rfl
    · next hquote =>
      rw [List.singleton_append, quotedField?, ih]
      · rfl
      · exact fun others h => absurd h hquote
      · exact hquote

/-- No character of a field without quotes ends it or begins quotes. -/
theorem of_not_needsQuotes {t : Text} (h : needsQuotes t = false) :
    ∀ c ∈ t, endsField c = false ∧ c ≠ '"' := by
  intro c hc
  have hplain := List.any_eq_false.1 h c hc
  simp only [Bool.or_eq_true, decide_eq_true_eq, not_or] at hplain
  obtain ⟨⟨⟨hcomma, hquote⟩, hfeed⟩, hreturn⟩ := hplain
  refine ⟨?_, hquote⟩
  rw [endsField, endsRecord, decide_eq_false hcomma, decide_eq_false hreturn, decide_eq_false hfeed]
  rfl

/-- A field that is written is read as its text, in front of anything that ends a field. -/
theorem field?_escapeCsv (t : Text) {rest : Text} (h : rest.head?.all endsField = true) :
    field? (escapeCsv t ++ rest) = some (t, rest) := by
  have hquote : rest.head? ≠ some '"' := by
    intro hhead
    rw [hhead] at h
    nomatch h
  unfold escapeCsv
  split
  · show quotedField? (doubleQuotes t ++ ['"'] ++ rest) = _
    rw [List.append_assoc]
    exact quotedField?_doubleQuotes t hquote
  · next hneeds =>
    have hplain := of_not_needsQuotes (eq_false_of_ne_true hneeds)
    have hfield : ∀ c ∈ t, (!endsField c) = true := fun c hc => by rw [(hplain c hc).1]; rfl
    have htake : rest.takeWhile (!endsField ·) = [] ∧ rest.dropWhile (!endsField ·) = rest := by
      cases rest with
      | nil => exact ⟨rfl, rfl⟩
      | cons c rest =>
        have hends : endsField c = true := h
        rw [List.takeWhile_cons, List.dropWhile_cons, hends]
        exact ⟨rfl, rfl⟩
    rw [field?, List.takeWhile_append_of_pos hfield, List.dropWhile_append_of_pos hfield, htake.1,
      htake.2, List.append_nil]
    intro others hothers
    -- the text starts with a quote only if the field or what follows it does
    cases t with
    | nil =>
      rw [List.nil_append] at hothers
      rw [hothers] at hquote
      exact hquote rfl
    | cons c t =>
      obtain ⟨rfl, -⟩ := List.cons.inj hothers
      exact (hplain _ List.mem_cons_self).2 rfl

/-- Fields that are written with commas between them are one record, which ends with the text or
before a line break. -/
theorem record?_join {fields : List Text} (hne : fields ≠ []) {rest : Text}
    (hrest : rest.head?.all endsRecord = true) :
    record? (join [','] (fields.map escapeCsv) ++ rest) = some (fields, rest) := by
  induction fields with
  | nil => exact absurd rfl hne
  | cons field fields ih =>
    cases fields with
    | nil =>
      refine record?_last (field?_escapeCsv field ?_) hrest
      cases rest with
      | nil => rfl
      | cons c rest => exact Bool.or_eq_true_iff.2 (.inr hrest)
    | cons next fields =>
      have hjoin : join [','] ((field :: next :: fields).map escapeCsv) ++ rest =
          escapeCsv field ++ ',' :: (join [','] ((next :: fields).map escapeCsv) ++ rest) := by
        simp [join]
      rw [hjoin, record?_comma (field?_escapeCsv field rfl), ih (List.cons_ne_nil _ _)]
      rfl

end SourcePreprocessor.Text

namespace SourcePreprocessor

open Text

/-- **Fields come back from their record.** The fields that `str2csv` gives, with commas between
them, are read as one record of the same fields with nothing left over, whatever quotes, commas and
line breaks the fields hold, and empty fields included. -/
theorem str2csv_record (fields : List Text) (hne : fields ≠ []) :
    (∀ field, callFunction "str2csv".toList [.str field] = .ok (.str (escapeCsv field))) ∧
    record? (join [','] (fields.map escapeCsv)) = some (fields, []) := by
  have hend : ([] : Text).head?.all endsRecord = true := rfl
  have hrecord := record?_join hne hend
  rw [List.append_nil] at hrecord
  exact ⟨fun _ => rfl, hrecord⟩

/-- An empty field, one of quotes only, one with a comma and a line break, and one that looks like
a field in quotes behind its blank. -/
theorem str2csv_record_quotes :
    [[], "\"\"".toList, "a,\r\nb".toList, " \"c\"".toList] ≠ [] ∧
      join [','] ([[], "\"\"".toList, "a,\r\nb".toList, " \"c\"".toList].map escapeCsv) =
        ",\"\"\"\"\"\",\"a,\r\nb\",\" \"\"c\"\"\"".toList ∧
      record? ",\"\"\"\"\"\",\"a,\r\nb\",\" \"\"c\"\"\"".toList =
        some ([[], "\"\"".toList, "a,\r\nb".toList, " \"c\"".toList], []) := by
  have hne : [[], "\"\"".toList, "a,\r\nb".toList, " \"c\"".toList] ≠ [] := List.cons_ne_nil _ _
  have hwritten : join [','] ([[], "\"\"".toList, "a,\r\nb".toList, " \"c\"".toList].map escapeCsv) =
      ",\"\"\"\"\"\",\"a,\r\nb\",\" \"\"c\"\"\"".toList := by decide +kernel
  refine ⟨hne, hwritten, ?_⟩
  rw [← hwritten]
  exact (str2csv_record _ hne).2

end SourcePreprocessor
