import Concord.Command.Basic
import Concord.Proofs.Map.Entries

/-!
# Words that are read

`Words.Reads` says step by step how the words after a command are read where nothing stops the
reading (`Words.read_eq_ok_iff`). Only options that the command knows come out, and a command that
knows more options reads the same words in the same way.
-/

namespace Concord.Words

variable {known more : List String} {w result : Words} {words : List String}

/-- What comes of reading words after those in `w`. -/
inductive Reads (known : List String) : Words → List String → Words → Prop where
  | done (w : Words) : Reads known w [] w
  | operand {w result : Words} {word : String} {rest : List String} (hkind : kindOf word = .operand)
      (hrest : Reads known (w.addOperands [word]) rest result) :
      Reads known w (word :: rest) result
  | divider {w : Words} {word : String} (hkind : kindOf word = .divider) (rest : List String) :
      Reads known w (word :: rest) (w.addOperands rest)
  | joined {w next result : Words} {word name value : String} {rest : List String}
      (hkind : kindOf word = .option name (some value)) (hknown : name ∈ known)
      (hadd : w.add name value = .ok next) (hrest : Reads known next rest result) :
      Reads known w (word :: rest) result
  | apart {w next result : Words} {word name value : String} {rest : List String}
      (hkind : kindOf word = .option name none) (hknown : name ∈ known)
      (hvalue : kindOf value = .operand) (hadd : w.add name value = .ok next)
      (hrest : Reads known next rest result) : Reads known w (word :: value :: rest) result

/-- What is read off the words follows the rules, word by word. -/
theorem reads_of_read (h : read known w words = .ok result) : Reads known w words result := by
  fun_induction read known w words with
  | case1 w =>
    cases h
    exact .done _
  | case2 w word rest hkind ih => exact .operand hkind (ih h)
  | case3 w word rest hkind =>
    cases h
    exact .divider hkind rest
  | case4 => cases h
  | case5 w word name hknown value rest hkind ih =>
    cases hadd : w.add name value with
    | error stop => rw [hadd] at h; cases h
    | ok next =>
      rw [hadd] at h
      exact .joined hkind (List.contains_iff_mem.1 hknown) hadd (ih next h)
  | case6 w word name hknown value rest hvalue hkind ih =>
    cases hadd : w.add name value with
    | error stop => rw [hadd] at h; cases h
    | ok next =>
      rw [hadd] at h
      exact .apart hkind (List.contains_iff_mem.1 hknown) hvalue hadd (ih next h)
  | case7 => cases h
  | case8 => cases h
  | case9 => cases h
  | case10 => cases h

/-- Words that follow the rules are read, and as the rules say. -/
theorem read_of_reads (h : Reads known w words result) : read known w words = .ok result := by
  induction h with
  | done w => rw [read]
  | operand hkind _ ih =>
    rw [read, hkind]
    exact ih
  | divider hkind rest => rw [read, hkind]
  | joined hkind hknown hadd _ ih =>
    rw [read, hkind]
    simp only [List.contains_iff_mem.2 hknown, if_true, hadd]
    exact ih
  | apart hkind hknown hvalue hadd _ ih =>
    rw [read, hkind]
    simp only [List.contains_iff_mem.2 hknown, if_true, hvalue, hadd]
    exact ih

theorem read_eq_ok_iff : read known w words = .ok result ↔ Reads known w words result :=
  ⟨reads_of_read, read_of_reads⟩

/-- A command that knows more options reads the same words in the same way. -/
theorem Reads.mono (hmore : ∀ name ∈ known, name ∈ more) (h : Reads known w words result) :
    Reads more w words result := by
  induction h with
  | done w => exact .done w
  | operand hkind _ ih => exact .operand hkind ih
  | divider hkind rest => exact .divider hkind rest
  | joined hkind hknown hadd _ ih => exact .joined hkind (hmore _ hknown) hadd ih
  | apart hkind hknown hvalue hadd _ ih => exact .apart hkind (hmore _ hknown) hvalue hadd ih

/-- An option that is added comes after those that were given before it. -/
theorem options_of_add {next : Words} {name value : String} (h : w.add name value = .ok next) :
    next.options = w.options ++ [(name, value)] := by
  unfold add at h
  split at h
  · cases h
  · cases h
    rfl

/-- Reading words gives no value to an option that the command does not know. -/
theorem Reads.mem_known (h : Reads known w words result) :
    ∀ option ∈ result.options, option ∈ w.options ∨ option.1 ∈ known := by
  have hadded : ∀ {w next result : Words} {name value : String}, name ∈ known →
      w.add name value = .ok next →
      (∀ option ∈ result.options, option ∈ next.options ∨ option.1 ∈ known) →
      ∀ option ∈ result.options, option ∈ w.options ∨ option.1 ∈ known := by
    intro w next result name value hknown hadd ih option hoption
    rcases ih option hoption with hnext | hnew
    · rw [options_of_add hadd, List.mem_append, List.mem_singleton] at hnext
      rcases hnext with hold | rfl
      · exact .inl hold
      · exact .inr hknown
    · exact .inr hnew
  induction h with
  | done w => exact fun _ hoption => .inl hoption
  | operand _ _ ih => exact ih
  | divider _ rest => exact fun _ hoption => .inl hoption
  | joined _ hknown hadd _ ih => exact hadded hknown hadd ih
  | apart _ hknown _ hadd _ ih => exact hadded hknown hadd ih

/-- Only options that the command knows have values. -/
theorem Reads.value?_eq_none (h : Reads known {} words result) {name : String}
    (hname : name ∉ known) : result.value? name = none := by
  refine lookup_eq_none_iff_notMem.2 fun hmem => ?_
  obtain ⟨option, hoption, rfl⟩ := List.mem_map.1 hmem
  rcases h.mem_known option hoption with hnone | hknown
  · cases hnone
  · exact hname hknown

end Concord.Words
