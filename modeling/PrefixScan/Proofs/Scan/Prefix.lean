import PrefixScan.Proofs.Scan.Inclusive
import PrefixScan.Proofs.Total

/-!
# Prefixes

Each output element of a hierarchical scan combines the prefix of the input that ends at it, each
element once and in order, whatever the operation.  How the combinations nest is fixed by the position,
the granularity and the plane dimension, so a result that depends on the order, as a sum of
floating-point numbers does, can be reproduced on a longer buffer or with larger cubes.

## Main results

* `hierarchical_combines_prefixes` — a scan whose preconditions hold succeeds, with the right elements.
* `hierarchical_agrees_up_to` — two scans agree wherever their inputs agreed up to.
-/

namespace PrefixScan.Scan

open Cascade Bracketing

variable {α : Type} [Inhabited α]

/-- Every scan with a valid configuration, a valid length and a cascade built for them succeeds,
whatever the cascade and fresh memory hold.  Output `i` is the value of a bracketing of the inputs
`0..i` that depends on nothing but `i`, the plane dimension and the granularity; so it is the running
fold for an operation that is associative, as the sum and the product of every integer type are.  The
elements behind the length are left alone. -/
theorem hierarchical_combines_prefixes (op : Operator α) (fill : α) {device : Device} {config : Config}
    {length : Size} {layout : Layout} {data : Array α} {levels : Array (Array α)}
    (hplanes : device.planes = true) (hdim : device.planeMin = device.planeMax)
    (hconfig : config.validate device.planeMin = .ok ())
    (hcheck : checkLength length config.granularity = .ok ())
    (hlayout : Layout.ofLength length (config.granularity.setWidth 64) = .ok layout)
    (hlevels : layout.Stores levels) (hdata : length.toNat ≤ data.size)
    (hreach : length.toNat ≤ 2 ^ 32)
    (hfits : config.granularity.toNat + config.cubeDim.toNat ≤ 2 ^ 32) :
    ∃ submission after,
      hierarchical op fill device config length layout ⟨data, levels⟩ = .ok submission ∧
      submission.result = .ok after ∧
      after.data.size = data.size ∧
      (∀ i < length.toNat,
        let t := ofScan device.planeMin.toNat config.granularity.toNat i
        t.items = List.range (i + 1) ∧
          after.data.getD i default = t.eval op.combine (data.getD · default)) ∧
      (∀ i, length.toNat ≤ i → after.data[i]? = data[i]?) ∧
      ((∀ a b c, op.combine (op.combine a b) c = op.combine a (op.combine b c)) →
        ∀ i < length.toNat, after.data.getD i default =
          (List.range' 1 i).foldl (fun acc j => op.combine acc (data.getD j default))
            (data.getD 0 default)) ∧
      (∀ signed bytes,
        ∀ op' ∈ [(ElementType.int signed bytes).sum, (ElementType.int signed bytes).prod],
          ∀ a b c, op'.combine (op'.combine a b) c = op'.combine a (op'.combine b c)) := by
  obtain ⟨settings, haccept⟩ := accept_isOk hplanes hdim hconfig hcheck hlayout
  have hready : Ready config length layout ⟨data, levels⟩ :=
    ⟨Layout.built_of_ofLength hlayout, hlevels, hdata, hreach, hfits⟩
  obtain ⟨after, hresult, _⟩ := launch_inclusive op fill hready haccept
  have hrun := hierarchical_of_accept op fill haccept (⟨data, levels⟩ : Store α)
  obtain ⟨hplane, hgran, hafter⟩ := data_of_hierarchical hrun hresult hready
  refine ⟨_, after, hrun, hresult, ?_, ?_, ?_, ?_, ?_⟩
  · rw [hafter, size_inclusive]
  · intro i hi
    refine ⟨items_ofScan hplane hgran i, ?_⟩
    rw [hafter, getD_inclusive (Nat.lt_of_lt_of_le hi hdata), if_pos hi]
  · intro i hi
    rw [hafter, getElem?_inclusive hi]
  · intro hassoc i hi
    rw [hafter, getD_inclusive_of_assoc hplane hgran hi hdata hassoc]
  · intro signed bytes op' hop
    exact ElementType.combine_assoc (by simpa using hop)

/-- Running sums of four of five numbers, on planes of two units and with rubbish in the cascade. -/
theorem hierarchical_combines_prefixes_four :
    ∃ (submission : Submission (Store (BitVec 32))) (after : Store (BitVec 32)),
      hierarchical Operator.sum 9 { planeMin := 2, planeMax := 2 }
        { granularity := 2, cubeDim := 2 } 4 ⟨4, 2, [⟨2, 2⟩, ⟨1, 2⟩]⟩
        ⟨#[1, 2, 3, 4, 5], #[#[7, 7], #[7, 7]]⟩ = .ok submission ∧
      submission.result = .ok after ∧ after.data.getD 3 default = 10 ∧ after.data[4]? = some 5 := by
  obtain ⟨submission, after, hrun, hresult, _, _, hrest, hfold, _⟩ :=
    @hierarchical_combines_prefixes (BitVec 32) _ Operator.sum 9 { planeMin := 2, planeMax := 2 }
      { granularity := 2, cubeDim := 2 } 4 ⟨4, 2, [⟨2, 2⟩, ⟨1, 2⟩]⟩ #[1, 2, 3, 4, 5]
      #[#[7, 7], #[7, 7]] rfl rfl (by decide) (by decide) (by cbv) (Layout.stores_of_sizes rfl)
      (by decide) (by decide) (by decide)
  refine ⟨submission, after, hrun, hresult, ?_, hrest 4 (by decide)⟩
  rw [hfold BitVec.add_assoc 3 (by decide)]
  rfl

/-! ## Two scans -/

/-- Scans of the same granularity on planes of the same dimension agree on element `i` if their inputs
agree up to it, whatever the lengths, the cubes, the cascades and the elements behind. -/
theorem hierarchical_agrees_up_to {op : Operator α} {fill fill' : α} {device device' : Device}
    {config config' : Config} {length length' : Size} {layout layout' : Layout}
    {store store' after after' : Store α} {submission submission' : Submission (Store α)}
    (hrun : hierarchical op fill device config length layout store = .ok submission)
    (hresult : submission.result = .ok after) (hready : Ready config length layout store)
    (hrun' : hierarchical op fill' device' config' length' layout' store' = .ok submission')
    (hresult' : submission'.result = .ok after') (hready' : Ready config' length' layout' store')
    (hgranularity : config.granularity = config'.granularity)
    (hplaneDim : device.planeMin = device'.planeMin) {i : Nat} (hi : i < length.toNat)
    (hi' : i < length'.toNat)
    (hsame : ∀ j ≤ i, store.data.getD j default = store'.data.getD j default) :
    after.data.getD i default = after'.data.getD i default := by
  obtain ⟨hplane, hgran, hafter⟩ := data_of_hierarchical hrun hresult hready
  obtain ⟨_, _, hafter'⟩ := data_of_hierarchical hrun' hresult' hready'
  rw [hafter, hafter', ← hgranularity, ← hplaneDim]
  exact getD_inclusive_congr hplane hgran hi hi' hready.data hready'.data hsame

/-- Differences, which are not associative, of four numbers and of the first two of them. -/
theorem hierarchical_agrees_up_to_two :
    ∃ (submission submission' : Submission (Store (BitVec 32))) (after after' : Store (BitVec 32)),
      hierarchical ⟨0, (· - ·)⟩ 9 { planeMin := 2, planeMax := 2 }
        { granularity := 2, cubeDim := 2 } 4 ⟨4, 2, [⟨2, 2⟩, ⟨1, 2⟩]⟩
        ⟨#[1, 2, 3, 4], #[#[7, 7], #[7, 7]]⟩ = .ok submission ∧
      submission.result = .ok after ∧
      hierarchical ⟨0, (· - ·)⟩ 5 { planeMin := 2, planeMax := 2 }
        { granularity := 2, cubeDim := 4 } 2 ⟨2, 2, [⟨1, 2⟩]⟩
        ⟨#[1, 2, 8], #[#[6, 6]]⟩ = .ok submission' ∧
      submission'.result = .ok after' ∧
      after.data.getD 1 default = after'.data.getD 1 default := by
  obtain ⟨settings, haccept⟩ : ∃ settings, accept { planeMin := 2, planeMax := 2 }
      { granularity := 2, cubeDim := 2 } 4 ⟨4, 2, [⟨2, 2⟩, ⟨1, 2⟩]⟩ = .ok settings := ⟨_, rfl⟩
  obtain ⟨settings', haccept'⟩ : ∃ settings, accept { planeMin := 2, planeMax := 2 }
      { granularity := 2, cubeDim := 4 } 2 ⟨2, 2, [⟨1, 2⟩]⟩ = .ok settings := ⟨_, rfl⟩
  have hready : Ready { granularity := 2, cubeDim := 2 } 4 ⟨4, 2, [⟨2, 2⟩, ⟨1, 2⟩]⟩
      (⟨#[1, 2, 3, 4], #[#[7, 7], #[7, 7]]⟩ : Store (BitVec 32)) :=
    ⟨by unfold Layout.Built; cbv, Layout.stores_of_sizes rfl, by decide, by decide, by decide⟩
  have hready' : Ready { granularity := 2, cubeDim := 4 } 2 ⟨2, 2, [⟨1, 2⟩]⟩
      (⟨#[1, 2, 8], #[#[6, 6]]⟩ : Store (BitVec 32)) :=
    ⟨by unfold Layout.Built; cbv, Layout.stores_of_sizes rfl, by decide, by decide, by decide⟩
  obtain ⟨after, hresult, _⟩ := launch_inclusive ⟨0, (· - ·)⟩ 9 hready haccept
  obtain ⟨after', hresult', _⟩ := launch_inclusive ⟨0, (· - ·)⟩ 5 hready' haccept'
  have hrun := hierarchical_of_accept ⟨0, (· - ·)⟩ 9 haccept
    (⟨#[1, 2, 3, 4], #[#[7, 7], #[7, 7]]⟩ : Store (BitVec 32))
  have hrun' := hierarchical_of_accept ⟨0, (· - ·)⟩ 5 haccept'
    (⟨#[1, 2, 8], #[#[6, 6]]⟩ : Store (BitVec 32))
  refine ⟨_, _, after, after', hrun, hresult, hrun', hresult', ?_⟩
  refine hierarchical_agrees_up_to hrun hresult hready hrun' hresult' hready' rfl rfl
    (by decide) (by decide) ?_
  intro j hj
  rcases Nat.le_one_iff_eq_zero_or_eq_one.1 hj with rfl | rfl <;> rfl

end PrefixScan.Scan
