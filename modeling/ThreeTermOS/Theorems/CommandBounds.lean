import ThreeTermOS.Lemmas.CommandLine

/-!
# The bounds of a command's words

`get_args_fname` copies the first word into 32 bytes and the text after it into 128. Both loops stop at the end of their array, so a word
of 32 characters leaves no place for its terminator, a longer one goes on in the arguments, and the terminator of a text of 128 is stored
behind its array.
-/

namespace ThreeTermOS

open Bytes

/-- `get_args_fname` over arrays `f` and `a`: its stores are within them, both end in a terminator, and the string in `args` is the text
after the whole first word or the beginning of it. -/
structure ParsedInBounds (command f a : CPtr) : Prop where
  fileName : ∀ st ∈ (getArgsFnameStores command).fileName, st.2 < fileNameCharmax
  args : ∀ st ∈ (getArgsFnameStores command).args, st.2 < lineBufferSize
  fileNameEnds : ∃ i < fileNameCharmax, applyStores f (getArgsFnameStores command).fileName i = 0
  argsEnd : ∃ i < lineBufferSize, applyStores a (getArgsFnameStores command).args i = 0
  tail : strcpyBytes (applyStores a (getArgsFnameStores command).args) <+: argsText command

namespace CommandBoundsAux

open CommandLineAux LibAux

variable {command : CPtr}

theorem fileName_inBounds (command : CPtr) : ∀ st ∈ (getArgsFnameStores command).fileName, st.2 < fileNameCharmax := by
  intro st hst
  rw [fileName_stores] at hst
  rcases List.mem_append.mp hst with hword | hend
  · have hlt := List.snd_lt_of_mem_zipIdx hword
    rw [List.length_take] at hlt
    omega
  · split at hend
    · rw [List.mem_singleton.mp hend]
      assumption
    · exact absurd hend List.not_mem_nil

/-- A first word that fills the array leaves no terminator in it. -/
theorem fileName_full (hfull : fileNameCharmax ≤ (firstWord command).length) (f : CPtr) {i : Nat} (hi : i < fileNameCharmax) :
    applyStores f (getArgsFnameStores command).fileName i ≠ 0 := by
  have hlen : ((firstWord command).take fileNameCharmax).length = fileNameCharmax := by rw [List.length_take, Nat.min_eq_left hfull]
  rw [fileName_stores, if_neg (Nat.not_lt_of_le hfull), List.append_nil, applyStores_zipIdx, hlen,
    fill_of_mem _ _ (Nat.zero_le _) (by omega), Nat.sub_zero, List.getD_eq_getElem _ _ (by omega)]
  exact take_ne_zero (firstWord_ne_zero command) _ _ (List.getElem_mem _)

theorem fileName_ends (hshort : (firstWord command).length < fileNameCharmax) (f : CPtr) :
    applyStores f (getArgsFnameStores command).fileName (firstWord command).length = 0 := by
  rw [fileName_stores, if_pos hshort, applyStores_append, applyStores_singleton, set_self]

theorem args_last (command : CPtr) :
    ((0 : UInt8), ((restText command).take lineBufferSize).length) ∈ (getArgsFnameStores command).args := by
  rw [args_stores]
  exact List.mem_append_right _ (List.mem_singleton.mpr rfl)

theorem args_inBounds (hshort : (restText command).length < lineBufferSize) :
    ∀ st ∈ (getArgsFnameStores command).args, st.2 < lineBufferSize := by
  intro st hst
  rw [args_stores] at hst
  rcases List.mem_append.mp hst with htext | hend
  · have hlt := List.snd_lt_of_mem_zipIdx htext
    rw [List.length_take] at hlt
    omega
  · rw [List.mem_singleton.mp hend, List.length_take]
    omega

theorem args_end (command a : CPtr) :
    applyStores a (getArgsFnameStores command).args ((restText command).take lineBufferSize).length = 0 := by
  rw [args_stores, applyStores_append, applyStores_singleton, set_self]

end CommandBoundsAux

open CommandBoundsAux CommandLineAux in
/-- Whatever the arrays held, `get_args_fname` keeps to them and takes the arguments from behind the first word exactly when the word
is shorter than `file_name` and the text after it shorter than `args`. -/
theorem parsed_inBounds_iff (command f a : CPtr) :
    ParsedInBounds command f a ↔ (firstWord command).length < fileNameCharmax ∧ (argsText command).length < lineBufferSize := by
  constructor
  · intro h
    have hword : (firstWord command).length < fileNameCharmax := by
      obtain ⟨i, hi, hzero⟩ := h.fileNameEnds
      by_contra hfull
      exact fileName_full (Nat.le_of_not_lt hfull) f hi hzero
    refine ⟨hword, ?_⟩
    have hlast := h.args _ (args_last command)
    rw [restText_eq command (Nat.le_of_lt hword), List.length_take] at hlast
    omega
  · rintro ⟨hword, htext⟩
    have hrest := restText_eq command (Nat.le_of_lt hword)
    rw [← hrest] at htext
    have hlen : ((restText command).take lineBufferSize).length < lineBufferSize := by
      rw [List.length_take]
      omega
    refine ⟨fileName_inBounds command, args_inBounds htext, ⟨_, hword, fileName_ends hword f⟩, ⟨_, hlen, args_end command a⟩, ?_⟩
    rw [string_args, hrest]
    exact List.take_prefix _ _

/-- A word of 33 characters. -/
def longWord : CPtr := cstr (List.replicate 33 0x78)

/-- A word of 33 characters fills `file_name` to its end and goes on in `args`. -/
theorem longWord_unterminated : ¬ParsedInBounds longWord (fun _ => 0) (fun _ => 0) := by
  intro h
  have hfull : ∀ i < fileNameCharmax, applyStores (fun _ => 0) (getArgsFnameStores longWord).fileName i ≠ 0 := by decide +kernel
  obtain ⟨i, hi, hzero⟩ := h.fileNameEnds
  exact hfull i hi hzero

end ThreeTermOS
