/-
Taking samples in is the same in one batch or in many.

The open run stands in the state of the downsampler, so a batch that ends
in the middle of a run leaves it for the next one. `ingest_append` says
that nothing else is carried over: the bars of two batches are the bars of
the one batch that they make together.
-/
import Metrograph.Waveform.PeakHold

namespace Metrograph.Waveform.PeakHold

variable {α : Type} [Scalar α]

/-- Bars that are there already stay in front of those to come. -/
theorem foldl_take (before : Array (Bar α)) (p : PeakHold α) (samples : List (Sample α)) :
    samples.foldl
        (fun (bars, p) s =>
          let (more, p) := PeakHold.take p s
          (bars ++ more, p))
        (before, p)
      = (before ++ (p.ingest samples).1, (p.ingest samples).2) := by
  induction samples generalizing before p with
  | nil => simp [ingest]
  | cons s rest ih =>
      have later := ih ((#[] : Array (Bar α)) ++ (p.take s).1) (p.take s).2
      conv => rhs; unfold ingest
      rw [List.foldl_cons, List.foldl_cons]
      dsimp only at later ⊢
      rw [ih, later]
      -- bars are appended as lists to an array, so the rest is said of lists
      refine Prod.ext (Array.toList_inj.mp ?_) rfl
      simp

theorem ingest_cons (p : PeakHold α) (s : Sample α) (rest : List (Sample α)) :
    p.ingest (s :: rest)
      = ((p.take s).1 ++ ((p.take s).2.ingest rest).1, ((p.take s).2.ingest rest).2) := by
  conv => lhs; unfold ingest
  rw [List.foldl_cons, foldl_take]
  simp

/-- Two batches are as good as one. -/
theorem ingest_append (p : PeakHold α) (xs ys : List (Sample α)) :
    p.ingest (xs ++ ys)
      = ((p.ingest xs).1 ++ ((p.ingest xs).2.ingest ys).1, ((p.ingest xs).2.ingest ys).2) := by
  induction xs generalizing p with
  | nil => rfl
  | cons s rest ih =>
      rw [List.cons_append, ingest_cons, ingest_cons, ih]
      dsimp only
      rw [List.append_assoc]

/-- A sample changes nothing but the open run. -/
theorem take_kept (p : PeakHold α) (s : Sample α) :
    (p.take s).2.layout = p.layout ∧ (p.take s).2.gain = p.gain := by
  unfold take
  dsimp only
  split
  · split
    · exact ⟨rfl, rfl⟩
    · split <;> exact ⟨rfl, rfl⟩
  · exact ⟨rfl, rfl⟩

/-- A batch changes nothing but the open run. -/
theorem ingest_kept (p : PeakHold α) (samples : List (Sample α)) :
    (p.ingest samples).2.layout = p.layout ∧ (p.ingest samples).2.gain = p.gain := by
  induction samples generalizing p with
  | nil => exact ⟨rfl, rfl⟩
  | cons s rest ih =>
      rw [ingest_cons]
      obtain ⟨layout, gain⟩ := take_kept p s
      obtain ⟨layout', gain'⟩ := ih (p.take s).2
      exact ⟨layout'.trans layout, gain'.trans gain⟩

end Metrograph.Waveform.PeakHold
