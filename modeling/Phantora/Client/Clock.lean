import Mathlib.Data.Int.ConditionallyCompleteOrder
import Mathlib.Order.ConditionallyCompleteLattice.Basic
import Phantora.CudaCall

/-!
# The virtual clock of a process

A process reads its virtual time off its CPU clock and an offset. The time that
an intercepted call takes is measured on the CPU clock and taken off the offset
again.
-/

namespace Phantora

namespace Clock

/-- The clocks at the start of the process, its CPU clock at each of its readings, and how the
names of kernels are demangled. -/
structure Surroundings where
  ignoreCpuTime : Bool
  initialSystem : ℤ
  initialCpu : ℤ
  cpu : ℕ → ℤ
  demangle : String → Option String

structure Client where
  timeOffset : ℤ := 0
  /-- The number of readings of the CPU clock. -/
  readings : ℕ := 0
  /-- The messages with their times, the last one first. -/
  sent : List (ℤ × CudaCall) := []

/-- The fields of the parameters of a kernel that are read. -/
structure FlashFwdParams where
  isBf16 : Bool
  b : ℤ
  seqlenQ : ℤ
  seqlenK : ℤ
  h : ℤ
  hK : ℤ
  d : ℤ
  windowSizeLeft : ℤ
  windowSizeRight : ℤ
  isCausal : Bool

def FlashFwdParams.extractCall (params : FlashFwdParams) (stream : CudaStream) (isFwd : Bool) :
    CudaCall :=
  .flashAttnCall stream isFwd params.isBf16 params.b params.seqlenQ params.seqlenK params.h
    params.hK params.d params.windowSizeLeft params.windowSizeRight params.isCausal

section Calls

variable (surroundings : Surroundings)

def currentCpuTimeUs : StateM Client ℤ := do
  let client ← get
  set { client with readings := client.readings + 1 }
  return surroundings.cpu client.readings

def getCurrentSimTime : StateM Client ℤ := do
  let delta := (← get).timeOffset
  if surroundings.ignoreCpuTime then return surroundings.initialSystem + delta
  else do
    let currentCpu ← currentCpuTimeUs surroundings
    return surroundings.initialSystem + currentCpu - surroundings.initialCpu + delta

def subtractCpuTime (us : ℤ) : StateM Client Unit :=
  if surroundings.ignoreCpuTime then return
  else modify fun client => { client with timeOffset := client.timeOffset - us }

def sendToSimulator (currSimTime : ℤ) (call : CudaCall) : StateM Client Unit :=
  modify fun client => { client with sent := (currSimTime, call) :: client.sent }

def sendCudaCall (call : CudaCall) : StateM Client Unit := do
  let startTime ← currentCpuTimeUs surroundings
  let now ← getCurrentSimTime surroundings
  sendToSimulator now call
  let endTime ← currentCpuTimeUs surroundings
  subtractCpuTime surroundings (endTime - startTime)

/-- `name.starts_with(pattern)` -/
def startsWith (name pattern : String) : Bool :=
  pattern.toList.isPrefixOf name.toList

def isFlashFwd (kernelName : String) : Bool :=
  startsWith kernelName "void flash_fwd_kernel"

def isFlashBwd (kernelName : String) : Bool :=
  startsWith kernelName "void flash_bwd_dot_do_o_kernel"

/-- The demangled name of a symbol, or its raw name. -/
def kernelNameOf (rawKernelName : String) : String :=
  (surroundings.demangle rawKernelName).getD rawKernelName

/-- `dladdr` has found the symbol, or none. -/
def cudaLaunchKernel (symbol : Option String) (params : FlashFwdParams) (stream : CudaStream) :
    StateM Client Unit := do
  let startTime ← currentCpuTimeUs surroundings
  match symbol with
  | none => return
  | some rawKernelName => do
      let kernelName := kernelNameOf surroundings rawKernelName
      if isFlashFwd kernelName then sendCudaCall surroundings (params.extractCall stream true)
      else if isFlashBwd kernelName then
        sendCudaCall surroundings (params.extractCall stream false)
      let endTime ← currentCpuTimeUs surroundings
      subtractCpuTime surroundings (endTime - startTime)

end Calls

/-- The call is sent and not answered; a collective is one outside a group. -/
def NonBlocking : CudaCall → Prop
  | .cudaMemcpyAsync _ _ _ => True
  | .cudaStreamWaitEvent _ _ => True
  | .cudaEventRecord _ => True
  | .cudaAddLatency _ _ => True
  | .ncclBcast _ _ _ _ _ => True
  | .ncclAllReduce _ _ _ _ _ => True
  | .ncclAllGather _ _ _ _ => True
  | .ncclReduceScatter _ _ _ _ _ => True
  | .ncclSend _ _ _ _ _ => True
  | .ncclRecv _ _ _ _ _ => True
  | .readTimer _ => True
  | _ => False

/-- The calls that are intercepted and do not wait for the simulator. -/
inductive Interposed where
  | send (call : CudaCall) (nonBlocking : NonBlocking call)
  | launchKernel (symbol : Option String) (params : FlashFwdParams) (stream : CudaStream)

def Interposed.perform (surroundings : Surroundings) : Interposed → StateM Client Unit
  | .send call _ => sendCudaCall surroundings call
  | .launchKernel symbol params stream => cudaLaunchKernel surroundings symbol params stream

/-- The kernel is one for which a call is sent. -/
def Interposed.isFlash (surroundings : Surroundings) : Interposed → Bool
  | .launchKernel (some rawKernelName) _ _ =>
      isFlashFwd (kernelNameOf surroundings rawKernelName) ||
        isFlashBwd (kernelNameOf surroundings rawKernelName)
  | _ => false

/-- The virtual time at a reading of the CPU clock, when CPU time counts. -/
def simTimeAt (surroundings : Surroundings) (client : Client) (reading : ℕ) : ℤ :=
  surroundings.initialSystem + surroundings.cpu reading - surroundings.initialCpu +
    client.timeOffset

/-- The clock is read, and shows at the last reading what it has shown at the first. -/
def Timeless (surroundings : Surroundings) (before after : Client) : Prop :=
  before.readings < after.readings ∧
    simTimeAt surroundings after (after.readings - 1) =
      simTimeAt surroundings before before.readings

variable {surroundings : Surroundings}

/-- When CPU time counts, the virtual clock is read as specified. -/
theorem getCurrentSimTime_eq (counted : surroundings.ignoreCpuTime = false) (client : Client) :
    (getCurrentSimTime surroundings client).1 = simTimeAt surroundings client client.readings := by
  simp only [getCurrentSimTime, counted]
  rfl

/-- Sending reads the clock three times and takes off what lies between the first and the last
reading. -/
theorem sendCudaCall_eq (counted : surroundings.ignoreCpuTime = false) (call : CudaCall)
    (client : Client) : (sendCudaCall surroundings call client).2 =
      { timeOffset := client.timeOffset -
          (surroundings.cpu (client.readings + 2) - surroundings.cpu client.readings)
        readings := client.readings + 3
        sent := (simTimeAt surroundings client (client.readings + 1), call) :: client.sent } := by
  simp only [sendCudaCall, getCurrentSimTime, subtractCpuTime, counted]
  rfl

/-- A kernel without a symbol: the clock is read once. -/
theorem cudaLaunchKernel_none (params : FlashFwdParams) (stream : CudaStream) (client : Client) :
    (cudaLaunchKernel surroundings none params stream client).2 =
      { client with readings := client.readings + 1 } :=
  rfl

/-- A kernel for which nothing is sent. -/
theorem cudaLaunchKernel_other (counted : surroundings.ignoreCpuTime = false)
    {rawKernelName : String}
    (notFwd : isFlashFwd (kernelNameOf surroundings rawKernelName) = false)
    (notBwd : isFlashBwd (kernelNameOf surroundings rawKernelName) = false)
    (params : FlashFwdParams) (stream : CudaStream) (client : Client) :
    (cudaLaunchKernel surroundings (some rawKernelName) params stream client).2 =
      { client with
        timeOffset := client.timeOffset -
          (surroundings.cpu (client.readings + 1) - surroundings.cpu client.readings)
        readings := client.readings + 2 } := by
  simp only [cudaLaunchKernel, subtractCpuTime, counted, notFwd, notBwd]
  rfl

/-- A kernel for which a call is sent: the time of sending is taken off twice. -/
theorem cudaLaunchKernel_flash (counted : surroundings.ignoreCpuTime = false)
    {rawKernelName : String} {params : FlashFwdParams} {stream : CudaStream}
    (isFlash : (Interposed.launchKernel (some rawKernelName) params stream).isFlash surroundings =
      true) (client : Client) :
    let client' := (cudaLaunchKernel surroundings (some rawKernelName) params stream client).2
    client'.readings = client.readings + 5 ∧ client'.timeOffset = client.timeOffset -
      (surroundings.cpu (client.readings + 3) - surroundings.cpu (client.readings + 1)) -
      (surroundings.cpu (client.readings + 4) - surroundings.cpu client.readings) := by
  rcases Bool.or_eq_true _ _ ▸ isFlash with isFwd | isBwd
  · simp only [cudaLaunchKernel, sendCudaCall, getCurrentSimTime, subtractCpuTime, counted, isFwd]
    exact ⟨rfl, rfl⟩
  · by_cases isFwd : isFlashFwd (kernelNameOf surroundings rawKernelName) = true
    · simp only [cudaLaunchKernel, sendCudaCall, getCurrentSimTime, subtractCpuTime, counted, isFwd]
      exact ⟨rfl, rfl⟩
    · simp only [cudaLaunchKernel, sendCudaCall, getCurrentSimTime, subtractCpuTime, counted, isFwd,
        isBwd]
      exact ⟨rfl, rfl⟩

/-- The virtual clock stands still during a call unless the call is sent for a kernel and sending
takes CPU time. -/
theorem perform_timeless_iff (counted : surroundings.ignoreCpuTime = false)
    (monotone : Monotone surroundings.cpu) (call : Interposed) (client : Client) :
    Timeless surroundings client (call.perform surroundings client).2 ↔
      (call.isFlash surroundings = true →
        surroundings.cpu (client.readings + 1) = surroundings.cpu (client.readings + 3)) := by
  cases call with
  | send call nonBlocking =>
      refine iff_of_true ?_ (fun isFlash => by cases isFlash)
      rw [Interposed.perform, sendCudaCall_eq counted]
      refine ⟨by dsimp only; omega, ?_⟩
      simp only [simTimeAt, Nat.add_succ_sub_one]
      omega
  | launchKernel symbol params stream =>
      cases symbol with
      | none =>
          refine iff_of_true ?_ (fun isFlash => by cases isFlash)
          rw [Interposed.perform, cudaLaunchKernel_none]
          exact ⟨Nat.lt_succ_self _, rfl⟩
      | some rawKernelName =>
          cases isFlash : (Interposed.launchKernel (some rawKernelName) params stream).isFlash
              surroundings with
          | true =>
              rcases cudaLaunchKernel_flash counted isFlash client with ⟨readings, timeOffset⟩
              have sending := monotone (Nat.add_le_add_left (by decide : 1 ≤ 3) client.readings)
              rw [Interposed.perform, Timeless, readings]
              simp only [simTimeAt, timeOffset, Nat.add_succ_sub_one, forall_const]
              omega
          | false =>
              rcases Bool.or_eq_false_iff.mp isFlash with ⟨notFwd, notBwd⟩
              refine iff_of_true ?_ (fun isFlash => by cases isFlash)
              rw [Interposed.perform, cudaLaunchKernel_other counted notFwd notBwd]
              refine ⟨by dsimp only; omega, ?_⟩
              simp only [simTimeAt, Nat.add_succ_sub_one]
              omega

/-- A process whose CPU clock shows one microsecond more at each reading. -/
def ticking : Surroundings where
  ignoreCpuTime := false
  initialSystem := 1000
  initialCpu := 0
  cpu reading := reading
  demangle _ := none

theorem perform_timeless_iff_record :
    Timeless ticking {} ((Interposed.send (.cudaEventRecord ⟨0, 0, 7⟩) trivial).perform ticking
      {}).2 :=
  (perform_timeless_iff rfl (fun _ _ le => Int.ofNat_le.mpr le) _ _).mpr
    (fun isFlash => by cases isFlash)

/-- The forward kernel of an attention. -/
def flashFwdLaunch : Interposed :=
  .launchKernel (some "void flash_fwd_kernel<traits>") ⟨true, 1, 8, 8, 2, 2, 64, -1, -1, false⟩
    ⟨0, 0⟩

/-- The clock goes back by the two microseconds that sending takes. -/
theorem not_timeless_flashFwdLaunch : ¬∀ surroundings : Surroundings,
    surroundings.ignoreCpuTime = false → Monotone surroundings.cpu →
      ∀ (call : Interposed) (client : Client),
        Timeless surroundings client (call.perform surroundings client).2 := by
  intro claimed
  have timeless := claimed ticking rfl (fun _ _ le => Int.ofNat_le.mpr le) flashFwdLaunch {}
  have isFlash : flashFwdLaunch.isFlash ticking = true := by decide
  rcases cudaLaunchKernel_flash rfl isFlash {} with ⟨readings, timeOffset⟩
  have stands := timeless.2
  simp only [flashFwdLaunch, Interposed.perform, readings, simTimeAt, timeOffset] at stands
  exact absurd stands (by decide)

end Clock

end Phantora
