import Mathlib.Data.List.Count
import Mathlib.Data.List.Nodup
import NodeMaterial.Shader.NameSupply

/-!
# When a supply issues different names

A base numbers its names from zero, so a list of bases is answered by each base with
the number of times that it stands before.  Names of one base differ.  Names of two
bases may be spelled the same, because a base can end in digits and because different
characters become underscores; this is the only way in which a supply repeats a name.
-/

namespace NodeMaterial.NameSupply

/-! ## Numbers -/

/-- Only the counter of the base itself moves on. -/
theorem next_advance (base other : String) (counters : List (String × Nat)) (issued : Nat) :
    next ⟨advance base counters, issued⟩ other =
      next ⟨counters, issued⟩ other + if base = other then 1 else 0 := by
  simp only [next]
  induction counters with
  | nil => by_cases same : base = other <;> simp [advance, same]
  | cons head rest induction =>
      rw [advance]
      by_cases isBase : head.1 = base
      · by_cases isOther : base = other <;> simp [isBase, isOther]
      · by_cases isOther : head.1 = other
        · have different : ¬ base = other := fun same => isBase (isOther.trans same.symm)
          simp [isOther, different, Ne.symm different]
        · simp [isBase, isOther, induction]

theorem next_issue (supply : NameSupply) (base other : String) :
    (supply.issue base).2.next other = supply.next other + if base = other then 1 else 0 :=
  next_advance base other supply.counters supply.issued

theorem issueAll_cons (supply : NameSupply) (base : String) (bases : List String) :
    supply.issueAll (base :: bases) =
      ((supply.issue base).1 :: ((supply.issue base).2.issueAll bases).1,
        ((supply.issue base).2.issueAll bases).2) :=
  rfl

theorem issueAll_append (supply : NameSupply) (first second : List String) :
    supply.issueAll (first ++ second) =
      ((supply.issueAll first).1 ++ ((supply.issueAll first).2.issueAll second).1,
        ((supply.issueAll first).2.issueAll second).2) := by
  induction first generalizing supply with
  | nil => rfl
  | cons base rest induction =>
      rw [List.cons_append, issueAll_cons, issueAll_cons, induction]
      rfl

theorem length_issueAll (supply : NameSupply) (bases : List String) :
    (supply.issueAll bases).1.length = bases.length := by
  induction bases generalizing supply with
  | nil => rfl
  | cons base rest induction => exact congrArg Nat.succ (induction _)

/-- A supply counts every name it has handed out. -/
theorem issued_issueAll (supply : NameSupply) (bases : List String) :
    (supply.issueAll bases).2.issued = supply.issued + bases.length := by
  induction bases generalizing supply with
  | nil => rfl
  | cons base rest induction =>
      rw [issueAll_cons, induction, List.length_cons]
      exact Nat.add_right_comm supply.issued 1 rest.length

/-- A name has the number of times that its base was asked for before. -/
theorem getElem?_issueAll
    (supply : NameSupply) {bases : List String} {place : Nat} {base : String}
    (found : bases[place]? = some base) :
    (supply.issueAll bases).1[place]? =
      some (spell base (supply.next base + (bases.take place).count base)) := by
  induction bases generalizing supply place with
  | nil => simp at found
  | cons head rest induction =>
      rw [issueAll_cons]
      cases place with
      | zero =>
          rw [List.getElem?_cons_zero, Option.some.injEq] at found
          rw [← found]
          rfl
      | succ place =>
          rw [List.getElem?_cons_succ] at found ⊢
          rw [induction _ found, next_issue, List.take_succ_cons, List.count_cons]
          simp only [beq_iff_eq, Nat.add_assoc, Nat.add_comm]

/-! ## Spelling -/

theorem sanitize_append (first second : List Char) :
    sanitize (first ++ second) = sanitize first ++ sanitize second :=
  List.map_append

/-- Digits pass the cleaning of names unchanged. -/
theorem sanitize_toDigits (number : Nat) :
    sanitize (Nat.toDigits 10 number) = Nat.toDigits 10 number := by
  rw [sanitize]
  conv_rhs => rw [← List.map_id (Nat.toDigits 10 number)]
  apply List.map_congr_left
  intro character member
  have digit := Nat.isDigit_of_mem_toDigits (by decide) (by decide) member
  have plain : (character == ' ' || character == '/') = false := by
    rw [Bool.or_eq_false_iff, beq_eq_false_iff_ne, beq_eq_false_iff_ne]
    constructor <;> rintro rfl <;> simp at digit
  rw [plain]
  rfl

theorem toList_spell (base : String) (number : Nat) :
    (spell base number).toList = sanitize base.toList ++ Nat.toDigits 10 number := by
  rw [spell, String.toList_ofList, sanitize_append, sanitize_toDigits]

theorem toDigits_injective {first second : Nat}
    (same : Nat.toDigits 10 first = Nat.toDigits 10 second) : first = second := by
  have parsed := congrArg (fun digits => Nat.ofDigitChars 10 digits 0) same
  simpa only [Nat.ofDigitChars_ten_toDigits] using parsed

/-- Names of one base differ in their numbers. -/
theorem spell_injective {base : String} {first second : Nat}
    (same : spell base first = spell base second) : first = second := by
  have letters := congrArg String.toList same
  rw [toList_spell, toList_spell] at letters
  exact toDigits_injective (List.append_cancel_left letters)

/-- One base is spelled like another one that digits are added to, perhaps none. -/
def Extends (longer shorter : String) : Prop :=
  ∃ digits : List Char, (∀ character ∈ digits, character.isDigit = true) ∧
    sanitize longer.toList = sanitize shorter.toList ++ digits

/-- Two bases share a name only if one extends the other. -/
theorem extends_of_spell_eq {first second : String} {firstNumber secondNumber : Nat}
    (same : spell first firstNumber = spell second secondNumber) :
    Extends first second ∨ Extends second first := by
  have letters := congrArg String.toList same
  rw [toList_spell, toList_spell, List.append_eq_append_iff] at letters
  rcases letters with ⟨digits, longer, rest⟩ | ⟨digits, longer, rest⟩
  · refine Or.inr ⟨digits, fun character member => ?_, longer⟩
    have inNumber : character ∈ Nat.toDigits 10 firstNumber := by simp [rest, member]
    exact Nat.isDigit_of_mem_toDigits (by decide) (by decide) inNumber
  · refine Or.inl ⟨digits, fun character member => ?_, longer⟩
    have inNumber : character ∈ Nat.toDigits 10 secondNumber := by simp [rest, member]
    exact Nat.isDigit_of_mem_toDigits (by decide) (by decide) inNumber

/-! ## Different names -/

/-- No two different bases spell one name with numbers that they both come to. -/
def Separate (bases : List String) : Prop :=
  ∀ first ∈ bases, ∀ second ∈ bases, first ≠ second →
    ∀ firstNumber < bases.count first, ∀ secondNumber < bases.count second,
      spell first firstNumber ≠ spell second secondNumber

instance (bases : List String) : Decidable (Separate bases) := by
  unfold Separate
  infer_instance

theorem Separate.perm {first second : List String} (perm : first.Perm second)
    (separate : Separate first) : Separate second := by
  intro base member other otherMember different
  rw [← perm.count_eq, ← perm.count_eq]
  exact separate base (perm.mem_iff.mpr member) other (perm.mem_iff.mpr otherMember) different

/-- A base stands somewhere with any number of occurrences before that is not too large. -/
theorem exists_count_take {bases : List String} {base : String} {number : Nat}
    (less : number < bases.count base) :
    ∃ place, bases[place]? = some base ∧ (bases.take place).count base = number := by
  induction bases generalizing number with
  | nil => simp at less
  | cons head rest induction =>
      by_cases same : head = base
      · subst same
        cases number with
        | zero => exact ⟨0, rfl, rfl⟩
        | succ number =>
            rw [List.count_cons_self] at less
            rcases induction (Nat.lt_of_succ_lt_succ less) with ⟨place, found, counted⟩
            exact ⟨place + 1, found, by rw [List.take_succ_cons, List.count_cons_self, counted]⟩
      · rw [List.count_cons_of_ne same] at less
        rcases induction less with ⟨place, found, counted⟩
        exact ⟨place + 1, found, by rw [List.take_succ_cons, List.count_cons_of_ne same, counted]⟩

/-- Later occurrences of a base have more occurrences before them. -/
theorem count_take_lt {bases : List String} {base : String} {first second : Nat}
    (found : bases[first]? = some base) (less : first < second) :
    (bases.take first).count base < (bases.take second).count base := by
  have longer : (bases.take (first + 1)).count base ≤ (bases.take second).count base :=
    (List.take_sublist_take_left less).count_le base
  rw [List.take_add_one, found, List.count_append] at longer
  exact Nat.lt_of_succ_le (by simpa using longer)

theorem count_take_lt_count {bases : List String} {base : String} {place : Nat}
    (found : bases[place]? = some base) :
    (bases.take place).count base < bases.count base := by
  have inRange := (List.getElem?_eq_some_iff.mp found).1
  have less := count_take_lt found inRange
  rwa [List.take_length] at less

/-- Requests for one base are told apart by how many came before. -/
theorem eq_of_count_take_eq {bases : List String} {base : String} {first second : Nat}
    (firstFound : bases[first]? = some base) (secondFound : bases[second]? = some base)
    (same : (bases.take first).count base = (bases.take second).count base) :
    first = second := by
  rcases Nat.lt_trichotomy first second with less | equal | less
  · exact absurd same (Nat.ne_of_lt (count_take_lt firstFound less))
  · exact equal
  · exact absurd same.symm (Nat.ne_of_lt (count_take_lt secondFound less))

/-- A name bears the number of earlier requests for its base. -/
theorem getElem?_issueAll_empty {bases : List String} {place : Nat} {base : String}
    (found : bases[place]? = some base) :
    (issueAll {} bases).1[place]? = some (spell base ((bases.take place).count base)) := by
  rw [getElem?_issueAll {} found]
  exact congrArg (fun number => some (spell base number)) (Nat.zero_add _)

/-- A new supply repeats a name only for another base. -/
theorem eq_of_issueAll_eq {bases : List String} {base : String} {first second : Nat}
    (firstFound : bases[first]? = some base) (secondFound : bases[second]? = some base)
    (same : (issueAll {} bases).1[first]? = (issueAll {} bases).1[second]?) :
    first = second := by
  rw [getElem?_issueAll_empty firstFound, getElem?_issueAll_empty secondFound,
    Option.some.injEq] at same
  exact eq_of_count_take_eq firstFound secondFound (spell_injective same)

/-- The names of a new supply differ if and only if the bases are separate. -/
theorem nodup_issueAll_iff (bases : List String) :
    (issueAll {} bases).1.Nodup ↔ Separate bases := by
  constructor
  · intro nodup first firstMember second secondMember different firstNumber firstLess
      secondNumber secondLess same
    rcases exists_count_take firstLess with ⟨firstPlace, firstFound, rfl⟩
    rcases exists_count_take secondLess with ⟨secondPlace, secondFound, rfl⟩
    have samePlace : (issueAll {} bases).1[firstPlace]? = (issueAll {} bases).1[secondPlace]? := by
      rw [getElem?_issueAll_empty firstFound, getElem?_issueAll_empty secondFound, same]
    have inRange : firstPlace < (issueAll {} bases).1.length := by
      rw [length_issueAll]
      exact (List.getElem?_eq_some_iff.mp firstFound).1
    rw [(List.getElem?_inj inRange nodup).mp samePlace, secondFound] at firstFound
    exact different (Option.some.inj firstFound).symm
  · intro separate
    rw [List.nodup_iff_getElem?_ne_getElem?]
    intro first second less inRange same
    rw [length_issueAll] at inRange
    have firstFound := List.getElem?_eq_getElem (Nat.lt_trans less inRange)
    have secondFound := List.getElem?_eq_getElem inRange
    by_cases sameBase : bases[first] = bases[second]
    · rw [sameBase] at firstFound
      exact Nat.ne_of_lt less (eq_of_issueAll_eq firstFound secondFound same)
    · rw [getElem?_issueAll_empty firstFound, getElem?_issueAll_empty secondFound,
        Option.some.injEq] at same
      exact separate _ (List.getElem_mem _) _ (List.getElem_mem _) sameBase _
        (count_take_lt_count firstFound) _ (count_take_lt_count secondFound) same

/-! ## Clean bases -/

/-- A base that is spelled as it stands and does not end in a digit. -/
def Clean (base : String) : Prop :=
  sanitize base.toList = base.toList ∧ base.toList.getLast?.any (·.isDigit) = false

instance (base : String) : Decidable (Clean base) := by
  unfold Clean
  infer_instance

/-- No digits lead from one clean base to another one. -/
theorem Extends.eq_of_clean {longer shorter : String} (extended : Extends longer shorter)
    (longerClean : Clean longer) (shorterClean : Clean shorter) : longer = shorter := by
  rcases extended with ⟨digits, areDigits, spelled⟩
  rw [longerClean.1, shorterClean.1] at spelled
  rcases List.eq_nil_or_concat digits with rfl | ⟨front, last, rfl⟩
  · exact String.toList_inj.mp (spelled.trans (List.append_nil _))
  · have isLast : longer.toList.getLast? = some last := by simp [spelled]
    have noDigit := longerClean.2
    rw [isLast, Option.any_some, areDigits last (by simp)] at noDigit
    cases noDigit

/-- A name tells its base if that is clean, so clean bases are separate. -/
theorem separate_of_clean {bases : List String} (clean : ∀ base ∈ bases, Clean base) :
    Separate bases := by
  intro first firstMember second secondMember different firstNumber _ secondNumber _ same
  have firstClean := clean first firstMember
  have secondClean := clean second secondMember
  rcases extends_of_spell_eq same with longer | longer
  · exact different (longer.eq_of_clean firstClean secondClean)
  · exact different (longer.eq_of_clean secondClean firstClean).symm

end NodeMaterial.NameSupply
