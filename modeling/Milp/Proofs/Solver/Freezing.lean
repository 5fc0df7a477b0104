import Milp.Proofs.Solver.Settings

/-!
# What frozen parameters depend on

Two different keys of a dictionary never stand for the same parameter, so no entry gets in the way
of another: `Settings.ofParameters` does not depend on the order of the entries, those that are
`Ignored` can be left out, and what is set under one key is a matter of that key alone, however it
is spelled.
-/

namespace Milp

/-- A value that is a finite number is told from others by that number. -/
theorem Value.key_of_number {v : Value} {q : Rat} (h : v.number? = some (.finite q)) :
    v.key = .number q := by
  have double {x : Float} (hx : Extended.ofFloat x = .finite q) : Key.ofFloat x = .number q := by
    unfold Extended.ofFloat at hx
    unfold Key.ofFloat
    generalize Binary64.parts x = parts at hx ⊢
    cases parts with
    | notANumber => cases hx
    | infinite negative => cases negative <;> cases hx
    | finite negative m e => exact congrArg Key.number (Extended.finite.inj hx)
  cases v with
  | bool b => exact congrArg Key.number (Extended.finite.inj (Option.some.inj h))
  | int n => exact congrArg Key.number (Extended.finite.inj (Option.some.inj h))
  | real x => exact double (Option.some.inj h)
  | scalar s =>
      cases s with
      | integer kind n => exact congrArg Key.number (Extended.finite.inj (Option.some.inj h))
      | single x => exact double (Option.some.inj h)
      | double x => exact double (Option.some.inj h)
      | flag b => exact congrArg Key.number (Extended.finite.inj (Option.some.inj h))
  | symbol s =>
      cases s with
      | parameter p => exact congrArg Key.number (Extended.finite.inj (Option.some.inj h))
      | _ => cases h
  | _ => cases h

namespace Settings

variable {name k k' v : Value} {t t' : Table Value} {s s' : Settings} {notes : List Message}
  {p : Parameter} {f : Fault} {e : Value × Value} {under : Key → Prop}

/-! ## Agreement -/

/-- Two settings hold the same for a parameter. -/
def SameField (s s' : Settings) : Parameter → Prop
  | .timeout => s.timeLimit = s'.timeLimit
  | .verbose => s.verbose = s'.verbose
  | .postsolve => s.postsolve = s'.postsolve
  | .gap => s.gap = s'.gap
  | .threads => s.threads = s'.threads

/-- Two settings agree on all that is set under some keys. -/
structure AgreeOn (under : Key → Prop) (s s' : Settings) : Prop where
  name : s.name = s'.name
  field : ∀ p, under (keyOf p).key → s.SameField s' p
  option : ∀ k, under k.key → s.options.get? k = s'.options.get? k

/-- Whether a key names an option is a matter of what it is told by. -/
theorem isOption_congr (h : k.key = k'.key) : isOption k = isOption k' := by
  have text (w : Value) : isOption w = true ↔ ∃ x, w.key = .text x := by
    constructor
    · intro hw
      cases w with
      | text x => exact ⟨x, rfl⟩
      | _ => cases hw
    · rintro ⟨x, hx⟩
      cases w with
      | text => rfl
      | real y =>
          simp only [Value.key, Key.ofFloat] at hx
          split at hx <;> cases hx
      | scalar c =>
          cases c with
          | single y =>
              simp only [Value.key, Key.ofScalar, Key.ofFloat] at hx
              split at hx <;> cases hx
          | double y =>
              simp only [Value.key, Key.ofScalar, Key.ofFloat] at hx
              split at hx <;> cases hx
          | _ => cases hx
      | symbol c => cases c <;> cases hx
      | tuple items =>
          cases items with
          | nil => cases hx
          | cons => cases hx
      | _ => cases hx
  rw [Bool.eq_iff_iff, text, text, h]

/-- The options are looked up as in the dictionary. -/
theorem Reads.get?_options (reads : s.Reads name t) (k : Value) :
    s.options.get? k = if isOption k then t.get? k else none := by
  unfold Table.get?
  dsimp only
  rw [reads.options, List.find?_filter]
  split
  · rename_i option
    have both :
        (fun e : Value × Value => decide (isOption e.1 = true ∧ (e.1.key == k.key) = true)) =
          fun e => e.1.key == k.key := by
      funext e
      rw [Bool.eq_iff_iff, decide_eq_true_iff, and_iff_right_iff_imp, beq_iff_eq]
      exact fun same => (isOption_congr same).trans option
    rw [both]
  · rename_i other
    rw [List.find?_eq_none.mpr, Option.map_none]
    intro e _ both
    obtain ⟨option, same⟩ := of_decide_eq_true both
    exact other ((isOption_congr (beq_iff_eq.mp same)).symm.trans option)

/-- Settings agree wherever the dictionaries do that they were read from. -/
theorem Reads.agreeOn (reads : s.Reads name t) (reads' : s'.Reads name t')
    (h : ∀ k, under k.key → t.get? k = t'.get? k) : s.AgreeOn under s' where
  name := reads.name.trans reads'.name.symm
  field p hp := by
    have given : t.given? (keyOf p) = t'.given? (keyOf p) := by
      rw [Table.given?, Table.given?, h _ hp]
    cases p with
    | timeout => exact (reads.timeLimit.trans (given ▸ rfl)).trans reads'.timeLimit.symm
    | verbose => exact (reads.verbose.trans (given ▸ rfl)).trans reads'.verbose.symm
    | postsolve => exact (reads.postsolve.trans given).trans reads'.postsolve.symm
    | gap => exact (reads.gap.trans (given ▸ rfl)).trans reads'.gap.symm
    | threads => exact (reads.threads.trans (given ▸ rfl)).trans reads'.threads.symm
  option k hk := by
    rw [reads.get?_options, reads'.get?_options, h k hk]

/-! ## Entries that break the freezing off -/

theorem ofParameters_of_sound (sound : ∀ e ∈ t.entries, ∀ f, ¬ Stops e f) :
    ofParameters name t =
      (.ok (t.entries.foldl taken (initial name)), t.entries.filterMap warning?) := by
  unfold ofParameters Action.perform
  rw [runOn_forM_take sound]
  simp [Except.map]

/-- `Settings.ofParameters` breaks off with the fault of the first entry that `Stops` it. -/
theorem ofParameters_of_first (first : First (fun e => ∃ f, Stops e f) t.entries e)
    (stops : Stops e f) : (ofParameters name t).1 = .error f := by
  obtain ⟨before, after, split, -, sound⟩ := first
  unfold ofParameters Action.perform
  rw [split, runOn_forM_take_of_stops (fun e he f stops => sound e he ⟨f, stops⟩) stops]
  rfl

/-- `Settings.ofParameters` gives settings if and only if no entry `Stops` it. -/
theorem ofParameters_eq_ok : ofParameters name t = (.ok s, notes) ↔
    (∀ e ∈ t.entries, ∀ f, ¬ Stops e f) ∧ t.entries.foldl taken (initial name) = s ∧
      t.entries.filterMap warning? = notes := by
  constructor
  · intro done
    have sound : ∀ e ∈ t.entries, ∀ f, ¬ Stops e f := by
      intro e he f stops
      obtain ⟨e, first⟩ := exists_first (P := fun e => ∃ f, Stops e f) ⟨e, he, f, stops⟩
      obtain ⟨-, -, -, ⟨f, stops⟩, -⟩ := id first
      have broken : (ofParameters name t).1 = .error f := ofParameters_of_first first stops
      rw [done] at broken
      cases broken
    have frozen := (ofParameters_of_sound sound).symm.trans done
    obtain ⟨settings, noted⟩ := Prod.mk.inj frozen
    exact ⟨sound, Except.ok.inj settings, noted⟩
  · rintro ⟨sound, rfl, rfl⟩
    exact ofParameters_of_sound sound

theorem reads_of_ofParameters (apart : t.keys.Pairwise fun k k' => k.key ≠ k'.key)
    (done : ofParameters name t = (.ok s, notes)) : s.Reads name t := by
  obtain ⟨-, rfl, -⟩ := ofParameters_eq_ok.mp done
  exact reads_foldl_taken apart name

theorem stops_congr (h : k.key = k'.key) : Stops (k, v) f ↔ Stops (k', v) f := by
  simp only [Stops, parameterOf?_eq_some, h]

/-! ## Entries that are of no use -/

/-- An entry is of no use: it is warned of, or it leaves a parameter at what it is. -/
def Ignored (e : Value × Value) : Prop :=
  (warning? e).isSome ∨ e.2 = .none ∧ ∃ p, parameterOf? e.1 = some p

/-- What does not fit a parameter leaves it at what it is. -/
theorem hold_of_not_fits (h : fits v p = false) (s : Settings) : hold p v s = s := by
  cases p with
  | timeout =>
      have unread : amount? v = none := by simpa [fits] using h
      rw [hold, unread, Option.none_or]
  | verbose =>
      have unread : level? v = none := by simpa [fits] using h
      rw [hold, unread, Option.getD_none]
  | gap =>
      have unread : amount? v = none := by simpa [fits] using h
      rw [hold, unread, Option.none_or]
  | threads =>
      have unread : count? v = none := by simpa [fits] using h
      rw [hold, unread, Option.none_or]
  | postsolve => cases h

theorem taken_of_ignored (h : Ignored e) (s : Settings) : taken s e = s := by
  rcases h with warned | ⟨missing, p, hp⟩
  · unfold warning? at warned
    unfold taken
    split at warned
    · cases warned
    · rename_i other
      rw [if_neg other]
      split at warned
      · rename_i unknown
        rw [unknown]
      · rename_i p v hp hv
        rw [hp, hv]
        split at warned
        · cases warned
        · rename_i unfit
          exact hold_of_not_fits (by simpa using unfit) s
      · cases warned
  · rw [taken, isOption_eq_false hp, hp, missing]
    rfl

theorem foldl_taken_filter {es : List (Value × Value)} {keep : Value × Value → Bool}
    (idle : ∀ e ∈ es, keep e = false → Ignored e) (s : Settings) :
    (es.filter keep).foldl taken s = es.foldl taken s := by
  induction es generalizing s with
  | nil => rfl
  | cons e es ih =>
      obtain ⟨head, tail⟩ := List.forall_mem_cons.mp idle
      cases kept : keep e with
      | true => rw [List.filter_cons_of_pos kept, List.foldl_cons, List.foldl_cons, ih tail]
      | false =>
          rw [List.filter_cons_of_neg (by simp [kept]), List.foldl_cons,
            taken_of_ignored (head kept), ih tail]

/-! ## Keys and their spellings -/

theorem take_congr (h : parameterOf? k = some p) (h' : parameterOf? k' = some p) (v : Value) :
    take k v = take k' v := by
  simp only [take_eq, isOption_eq_false h, isOption_eq_false h', h, h', Bool.false_eq_true,
    if_false]

/-- A parameter is honoured under every number that is equal to its own. -/
theorem parameterOf?_of_number (h : k.number? = some (.finite (p.code : Int))) :
    parameterOf? k = some p :=
  parameterOf?_eq_some.mpr (Value.key_of_number h)

theorem ofParameters_respelled {before after : List (Value × Value)}
    (h : parameterOf? k = some p) (h' : parameterOf? k' = some p) :
    ofParameters name ⟨before ++ (k, v) :: after⟩ =
      ofParameters name ⟨before ++ (k', v) :: after⟩ := by
  unfold ofParameters
  simp only [List.forM_eq_forM, List.forM_append, List.forM_cons, take_congr h h']

/-! ## Frozen settings -/

/-- Where `Settings.ofParameters` gives settings, any order of the entries gives the same fields and
options and the same warnings in another order; entries that are `Ignored` can be left out; writing
one key breaks the freezing off for its own value alone, and otherwise makes a difference under that
key at most; and a parameter is honoured in the same way under every number that is equal to its
own. -/
theorem ofParameters_entrywise (apart : t.keys.Pairwise fun k k' => k.key ≠ k'.key)
    (done : ofParameters name t = (.ok s, notes)) :
    (∀ es, es.Perm t.entries → ∃ s' notes', ofParameters name ⟨es⟩ = (.ok s', notes') ∧
      s.AgreeOn (fun _ => True) s' ∧ notes'.Perm notes) ∧
    (notes = t.entries.filterMap warning? ∧
      ∀ keep : Value × Value → Bool, (∀ e ∈ t.entries, keep e = false → Ignored e) →
        ofParameters name ⟨t.entries.filter keep⟩ =
          (.ok s, (t.entries.filter keep).filterMap warning?)) ∧
    (∀ k v, (∃ f, Stops (k, v) f ∧ (ofParameters name (t.insert k v)).1 = .error f) ∨
      ∃ s' notes', ofParameters name (t.insert k v) = (.ok s', notes') ∧
        s.AgreeOn (k.key ≠ ·) s') ∧
    (∀ before (k k' v : Value) after (p : Parameter), t.entries = before ++ (k, v) :: after →
      k.number? = some (.finite (p.code : Int)) → k'.number? = some (.finite (p.code : Int)) →
        ofParameters name ⟨before ++ (k', v) :: after⟩ = (.ok s, notes)) := by
  obtain ⟨sound, settings, noted⟩ := ofParameters_eq_ok.mp done
  have reads : s.Reads name t := settings ▸ reads_foldl_taken apart name
  refine ⟨fun es order => ?_, ⟨noted.symm, fun keep idle => ?_⟩, fun k v => ?_, ?_⟩
  · have entries : es.Pairwise fun e e' => e.1.key ≠ e'.1.key :=
      (order.pairwise_iff fun hne => hne.symm).mpr ((List.pairwise_map (f := Prod.fst)).mp apart)
    have reads' : Reads (es.foldl taken (initial name)) name ⟨es⟩ :=
      reads_foldl_taken (List.pairwise_map.mpr entries) name
    refine ⟨_, _, ofParameters_of_sound fun e he => sound e (order.mem_iff.mp he), ?_, ?_⟩
    · exact reads.agreeOn reads' fun k _ => (Table.get?_perm entries order).symm
    · exact noted ▸ order.filterMap warning?
  · refine ofParameters_eq_ok.mpr ⟨fun e he => sound e (List.mem_of_mem_filter he), ?_, rfl⟩
    exact (foldl_taken_filter idle _).trans settings
  · obtain ⟨before, k', after, written, same, kept⟩ := Table.exists_insert t k v
    by_cases stops : ∃ f, Stops (k, v) f
    · obtain ⟨f, stops⟩ := stops
      refine .inl ⟨f, stops, ?_⟩
      have stops' : Stops (k', v) f := (stops_congr same).mpr stops
      refine ofParameters_of_first ⟨before, after, written, ⟨f, stops'⟩, ?_⟩ stops'
      rintro e he ⟨f, broken⟩
      exact sound e (kept e (List.mem_append_left _ he)) f broken
    · have sound' : ∀ e ∈ (t.insert k v).entries, ∀ f, ¬ Stops e f := by
        rw [written]
        intro e he f broken
        rcases List.mem_append.mp he with old | new
        · exact sound e (kept e (List.mem_append_left _ old)) f broken
        · rcases List.mem_cons.mp new with rfl | old
          · exact stops ⟨f, (stops_congr same).mp broken⟩
          · exact sound e (kept e (List.mem_append_right _ old)) f broken
      have reads' := reads_foldl_taken (Table.pairwise_keys_insert (v := v) (k := k) apart) name
      refine .inr ⟨_, _, ofParameters_of_sound sound', reads.agreeOn reads' fun k' other => ?_⟩
      exact (Table.get?_insert_of_ne other t v).symm
  · intro before k k' v after p split hk hk'
    rw [← ofParameters_respelled (parameterOf?_of_number hk) (parameterOf?_of_number hk'), ← split]
    exact done

/-- An option, a negative time limit, no gap, a key that is no parameter, and the verbosity under a
truth value. -/
private def mixed : List (Value × Value) :=
  [(.text "presolve", .text "on"), (.int 0, .int (-5)), (keyOf .gap, .none), (.int 42, .int 1),
    (.bool true, .int 3)]

/-- The settings that hold the verbosity and the option. -/
private def outspoken : Settings :=
  { initial (.text "highs") with
      verbose := 3, options := ⟨[(.text "presolve", .text "on")]⟩ }

theorem ofParameters_entrywise_mixed :
    (ofParameters (.text "highs") ⟨mixed⟩ =
      (.ok outspoken, [refusal .timeout (.int (-5)), unknown (.int 42)])) ∧
    (∃ s' notes', ofParameters (.text "highs") ⟨mixed.reverse⟩ = (.ok s', notes') ∧
      s'.verbose = 3) ∧
    ofParameters (.text "highs") ⟨[(.text "presolve", .text "on"), (.bool true, .int 3)]⟩ =
      (.ok outspoken, []) ∧
    ofParameters (.text "highs") ⟨mixed.dropLast ++ [(keyOf .verbose, .int 3)]⟩ =
      (.ok outspoken, [refusal .timeout (.int (-5)), unknown (.int 42)]) := by
  have done : ofParameters (.text "highs") ⟨mixed⟩ =
      (.ok outspoken, [refusal .timeout (.int (-5)), unknown (.int 42)]) := by
    rfl
  obtain ⟨reordered, ⟨-, dropped⟩, -, respelled⟩ :=
    ofParameters_entrywise (t := ⟨mixed⟩) (by decide) done
  refine ⟨done, ?_, ?_, ?_⟩
  · obtain ⟨s', notes', frozen, agree, -⟩ := reordered mixed.reverse (List.reverse_perm _)
    exact ⟨s', notes', frozen, (agree.field .verbose trivial).symm⟩
  · refine dropped (fun e => isOption e.1 || e.1.key == (keyOf .verbose).key) ?_
    intro e he left
    simp only [mixed, List.mem_cons, List.not_mem_nil, or_false] at he
    rcases he with rfl | rfl | rfl | rfl | rfl
    · cases left
    · exact .inl rfl
    · exact .inr ⟨rfl, .gap, rfl⟩
    · exact .inl rfl
    · cases left
  · exact respelled mixed.dropLast (.bool true) (keyOf .verbose) (.int 3) [] .verbose rfl rfl rfl

end Settings

end Milp
