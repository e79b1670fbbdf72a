import ThreeTermOS.Kernel
import ThreeTermOS.Lemmas.FileDesc
import ThreeTermOS.Lemmas.Printf

/-!
# The end of a format

Only the `while` of the two formatted prints looks for the terminator of the format. A conversion that is still open there takes it for
an unknown one, and the loop goes on behind it.
-/

namespace ThreeTermOS

open Bytes Runs

/-- A formatted print reads nothing behind the terminator of its format, comes to its `return`, and returns the length of the format as
an `int`. -/
structure ReadsFormat {σ : Type} (turn : FormatLoop σ → Unit → Outcome PrintfStop (FormatLoop σ)) (start : FormatLoop σ) (ret : Int)
    (format : CPtr) : Prop where
  reads : ∀ n, ∀ i ∈ Scan.reads turn FormatLoop.buf start n, i ≤ strlen format
  returns : ∃ n l, run turn start (List.replicate n ()) = .stop .returned l
  length : (Int32.ofInt ret).toInt = strlen format

namespace FormatReadsAux

open LibAux PrintfAux

variable {σ : Type} {reset : Nat → σ → σ} {putc : σ → UInt8 → Outcome BootStop σ} {puts : σ → List UInt8 → Outcome BootStop σ}
  {format : CPtr} {args : Nat → PrintfArg} {out : σ} {l : FormatLoop σ}

/-- An `int` holds a length exactly when it is no more than the largest `int`. -/
theorem int_length (n : Nat) : (Int32.ofInt n).toInt = n ↔ n ≤ intMax := by
  unfold intMax
  constructor
  · intro h
    have hlt := (Int32.ofInt n).toInt_lt
    omega
  · intro hle
    exact Int32.toInt_ofInt_of_le (by omega) (by omega)

/-- Outside of conversions, and only there, the scan ends at the terminator. -/
theorem formatNext_end (conv : Option Bool) : formatNext conv 0 = none ↔ conv = none := by
  cases conv with
  | none => simp [formatNext]
  | some alternate => simp

/-- The scan through the whole of a format. -/
theorem conv_of_run (hrun : run (formatTurn reset putc puts format args) ⟨out, none, 0, 0⟩ (List.replicate (strlen format) ()) = .ok l) :
    l.buf = strlen format ∧ (l.conv = none ↔ CompleteFormat (strcpyBytes format)) := by
  obtain ⟨hbuf, hconv⟩ := (follows_formatTurn reset putc puts format args).run hrun
  rw [Nat.zero_add] at hbuf
  rw [completeFormat_iff (strcpyBytes_ne_zero format)]
  unfold strcpyBytes
  rw [hconv, Option.some.injEq]
  exact ⟨hbuf, Iff.rfl⟩

/-- A print reads no further than the terminator and returns exactly when it gets through the format and that is complete. -/
theorem ends_iff (hend : format (strlen format) = 0) :
    ((∀ n, ∀ i ∈ Scan.reads (formatTurn reset putc puts format args) FormatLoop.buf ⟨out, none, 0, 0⟩ n, i ≤ strlen format) ∧
      ∃ n l, run (formatTurn reset putc puts format args) ⟨out, none, 0, 0⟩ (List.replicate n ()) = .stop .returned l) ↔
    CompleteFormat (strcpyBytes format) ∧
      (run (formatTurn reset putc puts format args) ⟨out, none, 0, 0⟩ (List.replicate (strlen format) ())).isOk = true := by
  have hstay : ∀ i < strlen format, ∀ conv, formatNext conv (format i) ≠ none :=
    fun i hi conv => formatNext_ne_none (strlen_ne_zero format i hi) conv
  rw [(follows_formatTurn reset putc puts format args).ends_iff rfl hstay, hend]
  constructor
  · rintro ⟨l, hrun, hl⟩
    exact ⟨(conv_of_run hrun).2.mp ((formatNext_end _).mp hl), by rw [hrun]; rfl⟩
  · rintro ⟨hcomplete, hok⟩
    have hrun := Outcome.eq_ok_of_isOk hok
    exact ⟨_, hrun, (formatNext_end _).mpr ((conv_of_run hrun).2.mpr hcomplete)⟩

/-- A run that goes on for longer than the format has stopped at its terminator. -/
theorem buf_at_end (hend : format (strlen format) = 0) (hcomplete : CompleteFormat (strcpyBytes format))
    (hok : (run (formatTurn reset putc puts format args) ⟨out, none, 0, 0⟩ (List.replicate (strlen format) ())).isOk = true)
    {fuel : Nat} (hfuel : strlen format < fuel) :
    (run (formatTurn reset putc puts format args) ⟨out, none, 0, 0⟩ (List.replicate fuel ())).state.buf = strlen format := by
  have hrun := Outcome.eq_ok_of_isOk hok
  obtain ⟨hbuf, hconv⟩ := conv_of_run hrun
  have hstop := (follows_formatTurn reset putc puts format args).ends _ (by rw [hbuf, hend, hconv.mpr hcomplete]; rfl)
  obtain ⟨n, rfl⟩ := Nat.exists_eq_add_of_lt hfuel
  rw [Nat.add_assoc, ← List.replicate_append_replicate, run_append, hrun, Outcome.andThen_ok, List.replicate_succ, run_cons, hstop,
    Outcome.andThen_stop, Outcome.state_stop, hbuf]

/-- The property of a print with a given `return`, for a format in the address space. -/
theorem readsFormat_iff_runs (hend : format (strlen format) = 0) (hlt : strlen format < addressSpace) {ret : Int}
    (hret : ret = (run (formatTurn reset putc puts format args) ⟨out, none, 0, 0⟩ (List.replicate addressSpace ())).state.buf) :
    ReadsFormat (formatTurn reset putc puts format args) ⟨out, none, 0, 0⟩ ret format ↔
      CompleteFormat (strcpyBytes format) ∧ strlen format ≤ intMax ∧
        (run (formatTurn reset putc puts format args) ⟨out, none, 0, 0⟩ (List.replicate (strlen format) ())).isOk = true := by
  constructor
  · rintro ⟨hreads, hreturns, hlength⟩
    obtain ⟨hcomplete, hok⟩ := (ends_iff hend).mp ⟨hreads, hreturns⟩
    rw [hret, buf_at_end hend hcomplete hok hlt, int_length] at hlength
    exact ⟨hcomplete, hlength, hok⟩
  · rintro ⟨hcomplete, hle, hok⟩
    obtain ⟨hreads, hreturns⟩ := (ends_iff hend).mpr ⟨hcomplete, hok⟩
    refine ⟨hreads, hreturns, ?_⟩
    rwa [hret, buf_at_end hend hcomplete hok hlt, int_length]

end FormatReadsAux

/-- What a print does depends on no more of the format than it reads. -/
theorem run_formatTurn_congr {σ : Type} {reset : Nat → σ → σ} {putc : σ → UInt8 → Outcome BootStop σ}
    {puts : σ → List UInt8 → Outcome BootStop σ} {format format' : CPtr} {args : Nat → PrintfArg} (n : Nat) : ∀ l : FormatLoop σ,
    (∀ i ∈ Scan.reads (formatTurn reset putc puts format args) FormatLoop.buf l n, format' i = format i) →
      run (formatTurn reset putc puts format' args) l (List.replicate n ()) =
        run (formatTurn reset putc puts format args) l (List.replicate n ()) := by
  induction n with
  | zero => exact fun _ _ => rfl
  | succ n ih =>
    intro l hsame
    unfold Scan.reads at ih hsame
    rw [List.replicate_succ, collect, List.singleton_append, List.forall_mem_cons] at hsame
    have hturn : formatTurn reset putc puts format' args l () = formatTurn reset putc puts format args l () := by
      unfold formatTurn
      dsimp only
      rw [hsame.1]
    rw [List.replicate_succ, run_cons, run_cons, hturn]
    cases hl : formatTurn reset putc puts format args l () with
    | ok l' =>
      rw [hl] at hsame
      exact ih l' hsame.2
    | stop r l' => rfl

open FormatReadsAux PrintfAux LibAux in
/-- Of the formats in the address space, the two prints read exactly the complete ones to their end and no further, and return the
length, as long as that is an `int`. `printf` counts in `int`s what it prints as well, and these must not overflow either. -/
theorem readsFormat_iff {format : CPtr} (hend : ∃ n < addressSpace, format n = 0) (args : Nat → PrintfArg) :
    (∀ k : Console, ReadsFormat (terminalPrintfTurn format args) ⟨k.setFlags false true, none, 0, 0⟩ (terminalPrintf k format args).2 format ↔
      CompleteFormat (strcpyBytes format) ∧ strlen format ≤ intMax) ∧
    (∀ k : BootConsole, ReadsFormat (printfTurn format args) ⟨k, none, 0, 0⟩ (printf k format args).state.buf format ↔
      CompleteFormat (strcpyBytes format) ∧ strlen format ≤ intMax ∧
        PiecesCounted k.screenY (printfPieces format args (strlen format) none 0 0)) := by
  obtain ⟨z, hz, hzero⟩ := hend
  have hlt : strlen format < addressSpace := Nat.lt_of_le_of_lt (strlen_le hzero) hz
  have hend := strlen_end hlt
  have hne : ∀ i < strlen format, format (0 + i) ≠ 0 := fun i hi => by
    rw [Nat.zero_add]
    exact strlen_ne_zero format i hi
  refine ⟨fun k => ?_, fun k => ?_⟩
  · have hret : (terminalPrintf k format args).2 =
        (run (terminalPrintfTurn format args) ⟨k.setFlags false true, none, 0, 0⟩ (List.replicate addressSpace ())).state.buf := by
      unfold terminalPrintf
      rw [terminalPrintfLoop_eq]
    exact (readsFormat_iff_runs hend hlt hret).trans
      (and_congr_right (fun _ => and_iff_left (terminalPrintf_runs (strlen format) ⟨k.setFlags false true, none, 0, 0⟩ hne)))
  · have hret : ((printf k format args).state.buf : Int) =
        (run (printfTurn format args) ⟨k, none, 0, 0⟩ (List.replicate addressSpace ())).state.buf := by
      unfold printf
      rw [printfLoop_eq]
    rw [← printf_runs_iff (strlen format) ⟨k, none, 0, 0⟩ hne]
    exact readsFormat_iff_runs hend hlt hret

/-- A conversion with a `#` that is closed, and a line break behind it. -/
def addressFormat : CPtr := cstr (ascii "%#x\n")

/-- The console the kernel starts with. -/
def startConsole : Console := (boot (fun _ => 0) (fun _ => rootShellPCB)).toConsole

/-- The console of the boot, before anything is printed on it. -/
def startBoot : BootConsole := ⟨fun _ => 0, 0, 0⟩

/-- The video address for every argument. -/
def videoArgs (_ : Nat) : PrintfArg := ⟨video, fun _ => 0⟩

theorem readsFormat_iff_address :
    (∃ n < addressSpace, addressFormat n = 0) ∧
      ReadsFormat (terminalPrintfTurn addressFormat videoArgs) ⟨startConsole.setFlags false true, none, 0, 0⟩
        (terminalPrintf startConsole addressFormat videoArgs).2 addressFormat ∧
      ReadsFormat (printfTurn addressFormat videoArgs) ⟨startBoot, none, 0, 0⟩ (printf startBoot addressFormat videoArgs).state.buf
        addressFormat := by
  have hend : ∃ n < addressSpace, addressFormat n = 0 := ⟨4, by decide, by decide⟩
  have hlen : strlen addressFormat ≤ intMax := by decide
  have hcomplete : CompleteFormat (strcpyBytes addressFormat) := .conversion 1 (by decide) (.char (by decide) .nil)
  have hcounted : PiecesCounted startBoot.screenY (printfPieces addressFormat videoArgs (strlen addressFormat) none 0 0) :=
    ⟨by decide +kernel, by decide +kernel⟩
  obtain ⟨hterminal, hboot⟩ := readsFormat_iff hend videoArgs
  exact ⟨hend, (hterminal startConsole).mpr ⟨hcomplete, hlen⟩, (hboot startBoot).mpr ⟨hcomplete, hlen, hcounted⟩⟩

/-- A lone `%`. -/
def percentFormat : CPtr := cstr (ascii "%")

/-- Both prints take the terminator behind the `%` for a conversion and read the byte behind it. -/
theorem percentFormat_overread :
    ¬ReadsFormat (terminalPrintfTurn percentFormat videoArgs) ⟨startConsole.setFlags false true, none, 0, 0⟩
        (terminalPrintf startConsole percentFormat videoArgs).2 percentFormat ∧
      ¬ReadsFormat (printfTurn percentFormat videoArgs) ⟨startBoot, none, 0, 0⟩ (printf startBoot percentFormat videoArgs).state.buf
        percentFormat := by
  have hlen : strlen percentFormat = 1 := by decide
  refine ⟨fun h => ?_, fun h => ?_⟩
  · have hin := h.reads 3 2 (by decide)
    omega
  · have hin := h.reads 3 2 (by decide)
    omega

end ThreeTermOS
