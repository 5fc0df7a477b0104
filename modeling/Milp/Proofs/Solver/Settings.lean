import Milp.Proofs.Number.Double.Rounding
import Milp.Proofs.Table
import Milp.Solver.Settings

/-!
# Frozen parameters

`Settings.ofParameters` goes through a dictionary of parameters with `Settings.take`. Every entry
acts by itself: it is taken in, it is passed over with at most one warning, or it breaks the
freezing off. Only numbers that a field would hold but cannot represent (`Overflows`) do the last.
-/

namespace Milp

theorem Parameter.ofCode?_eq_some {n : Int} {p : Parameter} :
    Parameter.ofCode? n = some p ↔ n = p.code := by
  constructor
  · intro h
    unfold Parameter.ofCode? at h
    split at h <;> cases h <;> rfl
  · rintro rfl
    cases p <;> rfl

namespace Numeric

theorem ofInt_eq_ok {n : Int} {x : Float} : ofInt n = .ok x ↔ Binary64.ofInt? n = some x := by
  simp only [ofInt]
  split <;> simp [*]

theorem ofInt_eq_error {n : Int} {f : Fault} :
    (ofInt n : Except Fault Float) = .error f ↔ Binary64.ofInt? n = none ∧ f = .tooLarge := by
  simp only [ofInt]
  split <;> simp [*, eq_comm]

end Numeric

namespace Settings

variable {k v : Value} {p : Parameter} {f : Fault} {n : Int}

/-! ## What values stand for -/

/-- The key of a well-known parameter. -/
def keyOf (p : Parameter) : Value :=
  .symbol (.parameter p)

theorem parameterOf?_eq_some : parameterOf? k = some p ↔ k.key = (keyOf p).key := by
  have code : (keyOf p).key = .number (p.code : Int) := rfl
  rw [code]
  unfold parameterOf?
  split
  · rename_i q hq
    rw [hq, Key.number.injEq]
    split
    · rename_i whole
      rw [Parameter.ofCode?_eq_some, ← Rat.intCast_inj, Rat.coe_int_num_of_den_eq_one]
      exact beq_iff_eq.mp whole
    · rename_i part
      refine iff_of_false (by simp) ?_
      rintro rfl
      exact part (beq_iff_eq.mpr (Rat.den_intCast _))
  · rename_i other
    exact iff_of_false (by simp) (other _)

/-- The time limit or the gap that a value stands for. -/
def amount? (v : Value) : Option Float :=
  if isAmount v then (Numeric.ofValue v).toOption else none

/-- The verbosity that a value stands for. -/
def level? (v : Value) : Option Int :=
  if v.isReal then (toInt v).toOption else none

/-- A value stands for something that the field of a parameter can hold. -/
def fits (v : Value) : Parameter → Bool
  | .timeout => (amount? v).isSome
  | .gap => (amount? v).isSome
  | .verbose => (level? v).isSome
  | .threads => (count? v).isSome
  | .postsolve => true

/-- A value is a number that the field of a parameter would hold, but it cannot be converted. -/
inductive Overflows : Parameter → Value → Fault → Prop
  | tooLarge {p : Parameter} {v : Value} {n : Int} (amount : p = .timeout ∨ p = .gap)
      (whole : count? v = some n) (large : 2 ^ 1024 ≤ n + 2 ^ 970) : Overflows p v .tooLarge
  | infinite {v : Value} (h : v.number? = some .negInf ∨ v.number? = some .posInf) :
      Overflows .verbose v .infinityToInt
  | undefined {v : Value} (h : v.number? = some .notANumber) :
      Overflows .verbose v .notANumberToInt

/-! ## Reading values -/

theorem count?_of_ne_bool (h : ∀ b, v ≠ .bool b) : count? v = v.toInt? := by
  cases v with
  | bool b => exact absurd rfl (h b)
  | _ => rfl

/-- A whole number is read as what it is. -/
theorem of_count (h : count? v = some n) : isAmount v = decide (0 ≤ n) ∧
    (Numeric.ofValue v : Except Fault Float) = Numeric.ofInt n := by
  have sign (m : Int) : Extended.le (.finite 0) (.finite m) = decide (0 ≤ m) :=
    decide_eq_decide.mpr (by norm_cast)
  cases v with
  | int m =>
      obtain rfl : m = n := Option.some.inj h
      exact ⟨sign m, rfl⟩
  | symbol s =>
      cases s with
      | parameter q =>
          obtain rfl : (q.code : Int) = n := Option.some.inj h
          exact ⟨sign q.code, rfl⟩
      | _ => cases h
  | scalar s =>
      cases s with
      | integer kind m =>
          obtain rfl : m = n := Option.some.inj h
          exact ⟨sign m, rfl⟩
      | _ => cases h
  | _ => cases h

theorem ofInt?_eq_none (hn : 0 ≤ n) : Binary64.ofInt? n = none ↔ 2 ^ 1024 ≤ n + 2 ^ 970 := by
  rw [Binary64.ofInt?_eq_none_iff]
  zify
  rw [abs_of_nonneg hn]

theorem nonneg_of_ofInt {x : Float} (hn : 0 ≤ n) (h : Numeric.ofInt n = .ok x) :
    Numeric.le Numeric.zero x = true := by
  obtain ⟨q, rounds, hq⟩ := Binary64.ofInt?_rounds (Numeric.ofInt_eq_ok.mp h)
  have low : 0 ≤ q := (rounds 0 Binary64.isDouble_zero).1 (by exact_mod_cast hn)
  change Extended.le (.finite 0) (Extended.ofFloat x) = true
  rw [hq]
  exact decide_eq_true low

/-- A number that is not whole by its kind is read as a double. -/
theorem exists_of_real (real : v.isReal = true) (h : v.toInt? = none) :
    ∃ x : Float, Numeric.ofValue v = .ok x ∧ v.number? = some (Extended.ofFloat x) := by
  have undefined : some Extended.notANumber = some (.ofFloat Binary64.notANumber) := by
    decide +kernel
  cases v with
  | real x => exact ⟨x, rfl, rfl⟩
  | undefined form id => cases form <;> exact ⟨_, rfl, undefined⟩
  | scalar s =>
      cases s with
      | single x => exact ⟨x, rfl, rfl⟩
      | double x => exact ⟨x, rfl, rfl⟩
      | integer kind n => cases h
      | flag b => cases real
  | symbol s =>
      cases s with
      | parameter p => cases h
      | _ => cases real
  | bool b => cases h
  | int n => cases h
  | _ => cases real

/-- An amount is converted to a double that is not negative, unless it is a whole number that is out
of range. -/
theorem isAmount_cases (h : isAmount v = true) :
    (∃ x : Float, Numeric.ofValue v = .ok x ∧ Numeric.le Numeric.zero x = true) ∨
      ∃ n, count? v = some n ∧ 2 ^ 1024 ≤ n + 2 ^ 970 := by
  cases hn : count? v with
  | some n =>
      obtain ⟨sign, read⟩ := of_count hn
      have low : 0 ≤ n := of_decide_eq_true (sign ▸ h)
      cases hx : (Numeric.ofInt n : Except Fault Float) with
      | ok x => exact .inl ⟨x, read.trans hx, nonneg_of_ofInt low hx⟩
      | error f => exact .inr ⟨n, rfl, (ofInt?_eq_none low).mp (Numeric.ofInt_eq_error.mp hx).1⟩
  | none =>
      have parts : v.isReal = true ∧ v.toInt? = none ∧
          ∃ y, v.number? = some y ∧ Extended.le (.finite 0) y = true := by
        unfold isAmount at h
        split at h
        · cases h
        · rename_i other
          obtain ⟨real, sign⟩ := Bool.and_eq_true_iff.mp h
          rw [count?_of_ne_bool other] at hn
          split at sign
          · exact ⟨real, hn, _, ‹_›, sign⟩
          · cases sign
      obtain ⟨real, part, y, hy, sign⟩ := parts
      obtain ⟨x, hx, view⟩ := exists_of_real real part
      obtain rfl := Option.some.inj (hy.symm.trans view)
      exact .inl ⟨x, hx, sign⟩

theorem Overflows.of_amount (h : Overflows p v f) (amount : p = .timeout ∨ p = .gap) :
    isAmount v = true ∧ (Numeric.ofValue v : Except Fault Float) = .error f := by
  cases h with
  | @tooLarge _ _ n _ whole large =>
      obtain ⟨sign, read⟩ := of_count whole
      have low : 0 ≤ n := by omega
      exact ⟨sign.trans (decide_eq_true low),
        read.trans (Numeric.ofInt_eq_error.mpr ⟨(ofInt?_eq_none low).mpr large, rfl⟩)⟩
  | infinite h => simp at amount
  | undefined h => simp at amount

theorem toInt_eq (real : v.isReal = true) (part : v.toInt? = none) {y : Extended}
    (hy : v.number? = some y) : toInt v = Numeric.toIntBy Subtotal.truncate y := by
  obtain ⟨x, hx, view⟩ := exists_of_real real part
  obtain rfl := Option.some.inj (view.symm.trans hy)
  unfold toInt
  rw [part, hx]
  rfl

/-- A value that stands for no finite number is of no integral kind. -/
theorem real_of_number {y : Extended} (hy : v.number? = some y) (other : ∀ q, y ≠ .finite q) :
    v.isReal = true ∧ v.toInt? = none := by
  cases v with
  | real x => exact ⟨rfl, rfl⟩
  | undefined form id => exact ⟨rfl, rfl⟩
  | scalar s =>
      cases s with
      | single x => exact ⟨rfl, rfl⟩
      | double x => exact ⟨rfl, rfl⟩
      | _ => exact absurd (Option.some.inj hy).symm (other _)
  | bool b => exact absurd (Option.some.inj hy).symm (other _)
  | int n => exact absurd (Option.some.inj hy).symm (other _)
  | symbol s =>
      cases s with
      | parameter p => exact absurd (Option.some.inj hy).symm (other _)
      | _ => cases hy
  | _ => cases hy

/-- A number is converted to a whole one, unless it is infinite or undefined. -/
theorem isReal_cases (real : v.isReal = true) :
    (∃ n, toInt v = .ok n) ∨ ∃ f, Overflows .verbose v f := by
  cases part : v.toInt? with
  | some n => exact .inl ⟨n, by rw [toInt, part]⟩
  | none =>
      obtain ⟨x, -, hx⟩ := exists_of_real real part
      cases hy : Extended.ofFloat x with
      | finite q => exact .inl ⟨_, toInt_eq real part (hx.trans (congrArg some hy))⟩
      | notANumber => exact .inr ⟨_, .undefined (hx.trans (congrArg some hy))⟩
      | negInf => exact .inr ⟨_, .infinite (.inl (hx.trans (congrArg some hy)))⟩
      | posInf => exact .inr ⟨_, .infinite (.inr (hx.trans (congrArg some hy)))⟩

theorem Overflows.of_level (h : Overflows .verbose v f) :
    v.isReal = true ∧ toInt v = .error f := by
  have read {y : Extended} (hy : v.number? = some y) (other : ∀ q, y ≠ .finite q)
      (fails : (Numeric.toIntBy Subtotal.truncate y) = .error f) :
      v.isReal = true ∧ toInt v = .error f := by
    obtain ⟨real, part⟩ := real_of_number hy other
    exact ⟨real, (toInt_eq real part hy).trans fails⟩
  cases h with
  | tooLarge amount _ _ => simp at amount
  | infinite h =>
      rcases h with hy | hy
      · exact read hy (by simp) rfl
      · exact read hy (by simp) rfl
  | undefined hy => exact read hy (by simp) rfl

/-! ## One entry -/

/-- The settings once a parameter has been given a value. -/
def hold (p : Parameter) (v : Value) (s : Settings) : Settings :=
  match p with
  | .timeout => { s with timeLimit := (amount? v).or s.timeLimit }
  | .verbose => { s with verbose := (level? v).getD s.verbose }
  | .gap => { s with gap := (amount? v).or s.gap }
  | .threads => { s with threads := (count? v).or s.threads }
  | .postsolve => { s with postsolve := some v }

/-- What is noted of a value that does not fit a parameter. -/
def refusal (p : Parameter) (v : Value) : Message :=
  ⟨.warning, .parameters,
    "Ignoring parameter " ++ p.name ++ " with unexpected value " ++ Phrase.literal v⟩

/-- What is noted of a key that is no parameter. -/
def unknown (k : Value) : Message :=
  ⟨.warning, .parameters, "Ignoring unknown parameter " ++ Phrase.literal k⟩

/-- A key is the name of an option of the engine. -/
def isOption : Value → Bool
  | .text _ => true
  | _ => false

/-- What `Settings.take` does to the settings with an entry. -/
def taken (s : Settings) (e : Value × Value) : Settings :=
  if isOption e.1 then { s with options := s.options.insert e.1 e.2 }
  else
    match parameterOf? e.1, e.2.toOption with
    | some p, some v => hold p v s
    | _, _ => s

/-- What is noted of an entry. -/
def warning? (e : Value × Value) : Option Message :=
  if isOption e.1 then none
  else
    match parameterOf? e.1, e.2.toOption with
    | none, _ => some (unknown e.1)
    | some p, some v => if fits v p then none else some (refusal p v)
    | some _, none => none

/-- `Settings.take` is broken off by an entry. -/
def Stops (e : Value × Value) (f : Fault) : Prop :=
  ∃ p, parameterOf? e.1 = some p ∧ Overflows p e.2 f

open Milp.Action

theorem runOn_setParameter_of_overflows (h : Overflows p v f) (s : Logged Settings) :
    (setParameter p v).runOn s = (.error f, s) := by
  have amounts (amount : p = .timeout ∨ p = .gap) := h.of_amount amount
  unfold setParameter
  cases p with
  | timeout =>
      obtain ⟨some, read⟩ := amounts (.inl rfl)
      simp only [some, if_true, runOn_bind, runOn_ofExcept, read]
  | gap =>
      obtain ⟨some, read⟩ := amounts (.inr rfl)
      simp only [some, if_true, runOn_bind, runOn_ofExcept, read]
  | verbose =>
      obtain ⟨real, read⟩ := h.of_level
      simp only [real, if_true, runOn_bind, runOn_ofExcept, read]
  | threads => cases h with | tooLarge amount _ _ => simp at amount
  | postsolve => cases h with | tooLarge amount _ _ => simp at amount

/-- An amount is set if a value is one that can be converted, and passed over otherwise. -/
theorem runOn_amount (put : Option Float → Settings → Settings) (keeps : ∀ s, put none s = s)
    (h : ∀ n, count? v = some n → ¬ 2 ^ 1024 ≤ n + 2 ^ 970) (s : Logged Settings) :
    (if isAmount v then do
        let x ← .ofExcept (Numeric.ofValue v)
        .update (put (some x))
      else passOver p v : Action Settings Unit).runOn s =
      (.ok (), ⟨put (amount? v) s.state,
        s.log ++ if (amount? v).isSome then [] else [refusal p v]⟩) := by
  unfold amount?
  split
  · rename_i amount
    obtain ⟨x, hx, -⟩ | ⟨n, hn, large⟩ := isAmount_cases amount
    · simp [runOn_bind, hx, Except.toOption]
    · exact absurd large (h n hn)
  · simp only [Option.isSome_none, Bool.false_eq_true, if_false, keeps]
    rfl

theorem runOn_setParameter (h : ∀ f, ¬ Overflows p v f) (s : Logged Settings) :
    (setParameter p v).runOn s = (.ok (), ⟨hold p v s.state,
      s.log ++ if fits v p then [] else [refusal p v]⟩) := by
  have inside (amount : p = .timeout ∨ p = .gap) :
      ∀ n, count? v = some n → ¬ 2 ^ 1024 ≤ n + 2 ^ 970 :=
    fun n hn large => h _ (.tooLarge amount hn large)
  cases p with
  | timeout =>
      exact runOn_amount (fun o s => { s with timeLimit := o.or s.timeLimit }) (fun _ => rfl)
        (inside (.inl rfl)) s
  | gap =>
      exact runOn_amount (fun o s => { s with gap := o.or s.gap }) (fun _ => rfl)
        (inside (.inr rfl)) s
  | verbose =>
      unfold setParameter hold fits level?
      dsimp only
      split
      · rename_i real
        obtain ⟨n, hn⟩ | ⟨f, overflows⟩ := isReal_cases real
        · simp [runOn_bind, hn, Except.toOption]
        · exact absurd overflows (h f)
      · rfl
  | threads =>
      unfold setParameter hold fits
      dsimp only
      split
      · rename_i n hn
        simp [hn]
      · rename_i hn
        simp only [hn]
        rfl
  | postsolve =>
      simp [setParameter, hold, fits]

theorem toOption_eq (v : Value) : v.toOption = if v.isNone then none else some v := by
  cases v <;> rfl

theorem Overflows.isNone_eq (h : Overflows p v f) : v.isNone = false := by
  cases v with
  | none =>
      cases h with
      | tooLarge _ whole _ => cases whole
      | infinite h => rcases h with h | h <;> cases h
      | undefined h => cases h
  | _ => rfl

theorem take_eq (k v : Value) : take k v =
    if isOption k then .update fun s => { s with options := s.options.insert k v }
    else
      match parameterOf? k with
      | none => .note .warning .parameters ("Ignoring unknown parameter " ++ Phrase.literal k)
      | some p => if v.isNone then pure () else setParameter p v := by
  cases k <;> rfl

theorem isOption_eq_false (h : parameterOf? k = some p) : isOption k = false := by
  cases k with
  | text t => cases h
  | _ => rfl

theorem runOn_take_of_stops {e : Value × Value} (h : Stops e f) (s : Logged Settings) :
    (take e.1 e.2).runOn s = (.error f, s) := by
  obtain ⟨p, hp, overflows⟩ := h
  simp only [take_eq, isOption_eq_false hp, hp, overflows.isNone_eq]
  exact runOn_setParameter_of_overflows overflows s

/-- `Settings.take` takes in an entry that does not stop it, and notes it if it is of no use. -/
theorem runOn_take {e : Value × Value} (h : ∀ f, ¬ Stops e f) (s : Logged Settings) :
    (take e.1 e.2).runOn s = (.ok (), ⟨taken s.state e, s.log ++ (warning? e).toList⟩) := by
  rw [take_eq, taken, warning?, toOption_eq]
  by_cases option : isOption e.1 = true
  · simp [option]
  · simp only [option]
    cases hp : parameterOf? e.1 with
    | none => rfl
    | some p =>
        by_cases missing : e.2.isNone = true
        · simp [missing]
        · simp only [missing]
          refine (runOn_setParameter (fun f overflows => h f ⟨p, hp, overflows⟩) s).trans ?_
          split <;> simp [*]

/-! ## All entries -/

section

variable {es : List (Value × Value)}

theorem runOn_forM_take (h : ∀ e ∈ es, ∀ f, ¬ Stops e f) (s : Logged Settings) :
    (es.forM fun e => take e.1 e.2).runOn s =
      (.ok (), ⟨es.foldl taken s.state, s.log ++ es.filterMap warning?⟩) := by
  induction es generalizing s with
  | nil => simp
  | cons e es ih =>
      obtain ⟨head, tail⟩ := List.forall_mem_cons.mp h
      change (take e.1 e.2 >>= fun _ => es.forM fun e => take e.1 e.2).runOn s = _
      rw [runOn_bind, runOn_take head]
      dsimp only
      rw [ih tail, List.foldl_cons, List.filterMap_cons]
      cases warning? e <;> simp

/-- The first entry that `Stops` the freezing gives the fault, and the entries before it have been
noted. -/
theorem runOn_forM_take_of_stops {before after : List (Value × Value)} {e : Value × Value}
    (h : ∀ e ∈ before, ∀ f, ¬ Stops e f) (stops : Stops e f) (s : Logged Settings) :
    ((before ++ e :: after).forM fun e => take e.1 e.2).runOn s =
      (.error f, ⟨before.foldl taken s.state, s.log ++ before.filterMap warning?⟩) := by
  rw [List.forM_eq_forM, List.forM_append, runOn_bind, ← List.forM_eq_forM, runOn_forM_take h]
  change (take e.1 e.2 >>= fun _ => after.forM fun e => take e.1 e.2).runOn _ = _
  rw [runOn_bind, runOn_take_of_stops stops]

/-- What a field holds in the end is what it was given under the key of its parameter. -/
theorem field_foldl_taken {β : Type} (field : Settings → β) (read : Value → Option β)
    (options : ∀ s t, field { s with options := t } = field s)
    (held : ∀ q v s, field (hold q v s) = if q = p then (read v).getD (field s) else field s)
    (apart : es.Pairwise fun e e' => e.1.key ≠ e'.1.key) (s : Settings) :
    field (es.foldl taken s) =
      (((⟨es⟩ : Table Value).given? (keyOf p)).bind read).getD (field s) := by
  induction es generalizing s with
  | nil => rfl
  | cons e es ih =>
      obtain ⟨head, tail⟩ := List.pairwise_cons.mp apart
      rw [List.foldl_cons, ih tail]
      by_cases here : e.1.key = (keyOf p).key
      · have later : (⟨es⟩ : Table Value).given? (keyOf p) = none := by
          rw [Table.given?, Table.get?_eq_none fun e' he' => (here ▸ head e' he').symm]
          rfl
        have now : (⟨e :: es⟩ : Table Value).given? (keyOf p) = e.2.toOption := by
          rw [Table.given?, Table.get?_cons_self here]
          rfl
        have known := parameterOf?_eq_some.mpr here
        rw [later, now, taken, isOption_eq_false known, known]
        cases e.2.toOption with
        | none => rfl
        | some v => simp [held]
      · have other : (⟨e :: es⟩ : Table Value).given? (keyOf p) =
            (⟨es⟩ : Table Value).given? (keyOf p) := by
          rw [Table.given?, Table.get?_cons_of_ne here, Table.given?]
        have same : field (taken s e) = field s := by
          unfold taken
          split
          · exact options _ _
          · split
            · rename_i q v hq _
              rw [held, if_neg]
              rintro rfl
              exact here (parameterOf?_eq_some.mp hq)
            · rfl
        rw [other, same]

theorem name_foldl_taken (es : List (Value × Value)) (s : Settings) :
    (es.foldl taken s).name = s.name := by
  induction es generalizing s with
  | nil => rfl
  | cons e es ih =>
      rw [List.foldl_cons, ih, taken]
      split
      · rfl
      · split
        · rename_i p v _ _
          cases p <;> rfl
        · rfl

theorem options_foldl_taken (es : List (Value × Value)) (s : Settings) :
    (es.foldl taken s).options = s.options.insertAll (es.filter fun e => isOption e.1) := by
  induction es generalizing s with
  | nil => rfl
  | cons e es ih =>
      rw [List.foldl_cons, ih, taken]
      split
      · rename_i option
        simp only [List.filter_cons, option, if_true]
        rfl
      · rename_i other
        simp only [List.filter_cons, other]
        split
        · rename_i p v _ _
          cases p <;> rfl
        · rfl

end

/-! ## Settings for dictionaries -/

/-- What settings say of a dictionary of parameters. -/
structure Reads (s : Settings) (name : Value) (t : Table Value) : Prop where
  name : s.name = name
  timeLimit : s.timeLimit = (t.given? (keyOf .timeout)).bind amount?
  gap : s.gap = (t.given? (keyOf .gap)).bind amount?
  threads : s.threads = (t.given? (keyOf .threads)).bind count?
  verbose : s.verbose = ((t.given? (keyOf .verbose)).bind level?).getD 0
  postsolve : s.postsolve = t.given? (keyOf .postsolve)
  options : s.options.entries = t.entries.filter fun e => isOption e.1

section

variable {t : Table Value}

theorem reads_foldl_taken (apart : t.keys.Pairwise fun k k' => k.key ≠ k'.key) (name : Value) :
    Reads (t.entries.foldl taken (initial name)) name t := by
  have entries : t.entries.Pairwise fun e e' => e.1.key ≠ e'.1.key :=
    (List.pairwise_map (f := Prod.fst)).mp apart
  have optional {β : Type} (field : Settings → Option β) (p : Parameter) (read : Value → Option β)
      (options : ∀ s t, field { s with options := t } = field s)
      (held : ∀ q v s, field (hold q v s) = if q = p then (read v).or (field s) else field s)
      (absent : field (initial name) = none) :
      field (t.entries.foldl taken (initial name)) = (t.given? (keyOf p)).bind read := by
    rw [field_foldl_taken field (fun v => (read v).map some) options ?_ entries, absent]
    · cases t.given? (keyOf p) with
      | none => rfl
      | some v =>
          change ((read v).map some).getD none = read v
          cases read v <;> rfl
    · intro q v s
      rw [held]
      cases read v <;> rfl
  refine ⟨name_foldl_taken _ _, optional timeLimit .timeout amount? (fun _ _ => rfl) ?_ rfl,
    optional gap .gap amount? (fun _ _ => rfl) ?_ rfl,
    optional threads .threads count? (fun _ _ => rfl) ?_ rfl,
    field_foldl_taken verbose level? (fun _ _ => rfl) ?_ entries _, ?_, ?_⟩
  · rintro ⟨⟩ v s <;> rfl
  · rintro ⟨⟩ v s <;> rfl
  · rintro ⟨⟩ v s <;> rfl
  · rintro ⟨⟩ v s <;> rfl
  · rw [optional postsolve .postsolve some (fun _ _ => rfl) (by rintro ⟨⟩ v s <;> rfl) rfl,
      Option.bind_fun_some]
  · rw [options_foldl_taken]
    exact congrArg Table.entries (Table.ofList_of_pairwise
      (List.pairwise_map.mpr (entries.sublist List.filter_sublist)))

end

/-- An option and a time limit that does not fit. -/
private def harmless : List (Value × Value) :=
  [(.text "presolve", .text "on"), (.int 0, .int (-5))]

end Settings

end Milp
