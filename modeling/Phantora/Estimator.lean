import Phantora.CudaCall
import Phantora.Lib.Outcome

/-!
# Durations

Kernels and copies are measured on a real device. A `Profiler` says what each
measurement gives, by its number; the estimators cache the results, sequences
under a hash. Durations are in nanoseconds.
-/

namespace Phantora

open Outcome

/-- The device that runs the measurements, and the hasher of the standard library. -/
structure Profiler where
  memcpy : ℕ → CudaMemcpyKind → ℕ → ℕ
  flashAttn : ℕ → CudaCall → ℕ
  /-- One measurement of an operator, run a number of times. -/
  torch : ℕ → ℕ → TorchCallInfo → ℕ
  hashSequence : List TorchCallInfo → ℕ
  /-- The command line flag `disable_sequence_call`. -/
  disableSequenceCall : Bool

/-- Whole microseconds. -/
def asMicros (duration : ℕ) : ℤ :=
  (duration / 1000 : ℕ)

structure CudaEstimator where
  measured : ℕ := 0
  memcpyCache : CudaMemcpyKind → ℕ → Option ℕ := fun _ _ => none

namespace CudaEstimator

def memcpy (profiler : Profiler) (estimator : CudaEstimator) (kind : CudaMemcpyKind) (size : ℕ) :
    CudaEstimator × ℕ :=
  match estimator.memcpyCache kind size with
  | some duration => (estimator, duration)
  | none =>
      let duration := profiler.memcpy estimator.measured kind size
      ({ measured := estimator.measured + 1
         memcpyCache := Function.update estimator.memcpyCache kind
           (Function.update (estimator.memcpyCache kind) size (some duration)) }, duration)

def flashAttn (profiler : Profiler) (estimator : CudaEstimator) (call : CudaCall) :
    CudaEstimator × ℕ :=
  ({ estimator with measured := estimator.measured + 1 },
    profiler.flashAttn estimator.measured call)

end CudaEstimator

structure TorchEstimator where
  measured : ℕ := 0
  computeCache : TorchCallInfo → Option ℕ := fun _ => none
  /-- Durations of a sequence, by its hash. -/
  sequenceCache : ℕ → Option (List ℕ) := fun _ => none

namespace TorchEstimator

/-- Measure an operator. -/
def run (profiler : Profiler) (estimator : TorchEstimator) (n : ℕ) (info : TorchCallInfo) :
    TorchEstimator × ℕ :=
  ({ estimator with measured := estimator.measured + 1 },
    profiler.torch estimator.measured n info)

def estimate (profiler : Profiler) (estimator : TorchEstimator) (info : TorchCallInfo) :
    TorchEstimator × ℕ :=
  match estimator.computeCache info with
  | some duration => (estimator, duration)
  | none =>
      let (estimator, duration) := estimator.run profiler 2 info
      ({ estimator with
        computeCache := Function.update estimator.computeCache info (some duration) }, duration)

/-- Measure the operators of a sequence, in order. -/
def runAll (profiler : Profiler) (estimator : TorchEstimator) :
    List TorchCall → TorchEstimator × List ℕ
  | [] => (estimator, [])
  | call :: calls =>
      let (estimator, duration) := estimator.run profiler 1 call.info
      let (estimator, durations) := runAll profiler estimator calls
      (estimator, duration :: durations)

def estimateSequence (profiler : Profiler) (estimator : TorchEstimator) (calls : List TorchCall) :
    TorchEstimator × List ℕ :=
  let seqHash := profiler.hashSequence (calls.map TorchCall.info)
  match estimator.sequenceCache seqHash with
  | some durations => (estimator, durations)
  | none =>
      let (estimator, durations) := estimator.runAll profiler calls
      ({ estimator with
        sequenceCache := Function.update estimator.sequenceCache seqHash (some durations) },
        durations)

end TorchEstimator

end Phantora
