import Mathlib.Algebra.Group.Nat.Defs
import Mathlib.Data.Nat.Log
import ForgeKv.Library.Rank

namespace ForgeKv.Benchmarking

def kSubBuckets : Nat := 128
def kExponents : Nat := 26
def kBucketCount : Nat := kSubBuckets*kExponents

-- Microseconds.
def kMaximum : Int := 60000000

def saturatedAdd (left right : Nat) : Nat :=
  if right > 2^64-1-left then 2^64-1 else left+right

def bucketIndex (value : Nat) : Nat :=
  let exponent := value.log2
  let base := 2^exponent
  let subBucket := ((value-base)*kSubBuckets)/base
  exponent*kSubBuckets+min subBucket (kSubBuckets-1)

def bucketUpper (index : Nat) : Nat :=
  let exponent := index/kSubBuckets
  let subBucket := index%kSubBuckets
  let base := 2^exponent
  let numerator := (subBucket+1)*base
  let widthEnd := (numerator+kSubBuckets-1)/kSubBuckets
  base+widthEnd-1

theorem bucketIndex_mono : Monotone bucketIndex := by
  intro low high order
  have exponents : low.log2 ≤ high.log2 := by
    rw [Nat.log2_eq_log_two,Nat.log2_eq_log_two]
    exact Nat.log_mono_right order
  simp only [bucketIndex,kSubBuckets]
  rcases Nat.lt_or_eq_of_le exponents with less | equal
  · generalize (low-2^low.log2)*128/2^low.log2 = part
    generalize (high-2^high.log2)*128/2^high.log2 = part'
    omega
  · rw [equal]
    have parts := Nat.div_le_div_right (c := 2^high.log2) (Nat.mul_le_mul_right 128 (Nat.sub_le_sub_right order (2^high.log2)))
    omega

theorem bucketUpper_mono : Monotone bucketUpper := by
  intro low high order
  have exponents : low/128 ≤ high/128 := Nat.div_le_div_right order
  simp only [bucketUpper,kSubBuckets]
  rcases Nat.lt_or_eq_of_le exponents with less | equal
  · have doubled : 2*2^(low/128) ≤ 2^(high/128) := by
      rw [← Nat.pow_succ']
      exact Nat.pow_le_pow_right (by omega) less
    have part : (low%128+1)*2^(low/128) ≤ 128*2^(low/128) := Nat.mul_le_mul_right _ (by omega)
    omega
  · rw [← equal]
    have parts : (low%128+1)*2^(low/128) ≤ (high%128+1)*2^(low/128) := Nat.mul_le_mul_right _ (by omega)
    omega

theorem bucketUpper_bucketIndex {value : Nat} (positive : 1 ≤ value) :
    value ≤ bucketUpper (bucketIndex value) ∧
      128*(bucketUpper (bucketIndex value)-value) < value := by
  have below : 2^value.log2 ≤ value := Nat.log2_self_le (by omega)
  have above : value < 2*2^value.log2 := by
    rw [← Nat.pow_succ']
    exact Nat.lt_log2_self
  have base := Nat.two_pow_pos value.log2
  have sub : (value-2^value.log2)*128/2^value.log2 < 128 := by
    rw [Nat.div_lt_iff_lt_mul base]
    omega
  have lower := Nat.div_mul_le_self ((value-2^value.log2)*128) (2^value.log2)
  have upper := Nat.lt_div_mul_add base (a := (value-2^value.log2)*128)
  simp only [bucketUpper,bucketIndex,kSubBuckets]
  generalize (value-2^value.log2)*128/2^value.log2 = part at sub lower upper
  have exponent : (value.log2*128+min part (128-1))/128 = value.log2 := by omega
  have rest : (value.log2*128+min part (128-1))%128 = part := by omega
  rw [exponent,rest,Nat.add_mul,Nat.one_mul]
  omega

theorem bucketIndex_lt {value : Nat} (most : (value : Int) ≤ kMaximum) : bucketIndex value < kBucketCount := by
  have last := bucketIndex_mono (show value ≤ 60000000 by simp only [kMaximum] at most; omega)
  exact Nat.lt_of_le_of_lt last (by decide)

structure LatencyHistogram where
  buckets : Vector Nat kBucketCount
  count : Nat
  underflowCount : Nat
  overflowCount : Nat
  maximum : Int

def LatencyHistogram.empty : LatencyHistogram := ⟨Vector.replicate kBucketCount 0,0,0,0,0⟩

namespace LatencyHistogram

def observe (histogram : LatencyHistogram) (latency : Int) : LatencyHistogram :=
  if latency ≤ 0 then {histogram with underflowCount := saturatedAdd histogram.underflowCount 1}
  else if above : latency > kMaximum then
    {histogram with overflowCount := saturatedAdd histogram.overflowCount 1}
  else
    let value := latency.toNat
    have inside : bucketIndex value < kBucketCount := bucketIndex_lt (by simp only [kMaximum] at above ⊢; omega)
    {histogram with
      buckets := histogram.buckets.set (bucketIndex value) (saturatedAdd histogram.buckets[bucketIndex value] 1)
      count := saturatedAdd histogram.count 1
      maximum := max histogram.maximum latency}

def merge (histogram other : LatencyHistogram) : LatencyHistogram :=
  ⟨Vector.zipWith saturatedAdd histogram.buckets other.buckets,saturatedAdd histogram.count other.count,
    saturatedAdd histogram.underflowCount other.underflowCount,
    saturatedAdd histogram.overflowCount other.overflowCount,max histogram.maximum other.maximum⟩

-- The loop of `quantile` over the buckets that are left, from the index of the first.
def scan (rank : Nat) (maximum : Int) : List Nat → Nat → Nat → Option Int
  | [],_,_ => none
  | bucket::rest,index,cumulative =>
    let cumulative := saturatedAdd cumulative bucket
    if cumulative ≥ rank then some (min (bucketUpper index : Int) maximum)
    else scan rank maximum rest (index+1) cumulative

def ranked (histogram : LatencyHistogram) (rank : Nat) : Option Int :=
  scan rank histogram.maximum histogram.buckets.toList 0 0

def quantile (histogram : LatencyHistogram) (fraction : Float) : Option Int :=
  if histogram.count = 0 ∨ fraction.isFinite = false ∨ fraction ≤ 0 ∨ fraction > 1 then none
  else histogram.ranked (fraction*Float.ofNat histogram.count).ceil.toUInt64.toNat

-- The latencies were observed by histograms that were merged, in whatever order.
inductive Collects : LatencyHistogram → Multiset Int → Prop where
  | empty : Collects empty 0
  | observe (latency : Int) (collects : Collects histogram latencies) :
      Collects (histogram.observe latency) (latency ::ₘ latencies)
  | merge (collects : Collects histogram latencies) (other : Collects histogram' latencies') :
      Collects (histogram.merge histogram') (latencies+latencies')

def bucketOf (latency : Int) : Nat := bucketIndex latency.toNat

theorem bucketOf_mono {low high : Int} (order : low ≤ high) : bucketOf low ≤ bucketOf high :=
  bucketIndex_mono (Int.toNat_le_toNat order)

-- What a histogram knows of the latencies it collected.
structure Tallies (histogram : LatencyHistogram) (latencies : Multiset Int) : Prop where
  bucket (index : Nat) (inside : index < kBucketCount) :
    histogram.buckets[index] = latencies.countP (bucketOf · = index)
  count : histogram.count = latencies.card
  maximum (bound : Int) : histogram.maximum ≤ bound ↔ 0 ≤ bound ∧ ∀ latency ∈ latencies, latency ≤ bound

theorem saturatedAdd_eq {left right : Nat} (few : left+right < 2^64) : saturatedAdd left right = left+right :=
  if_neg (by omega)

def Fits (latencies : Multiset Int) : Prop :=
  (∀ latency ∈ latencies, 1 ≤ latency ∧ latency ≤ kMaximum) ∧ latencies.card < 2^64

theorem Tallies.observed {histogram : LatencyHistogram} {latencies : Multiset Int} {latency : Int}
    (tallies : Tallies histogram latencies) (fits : Fits (latency ::ₘ latencies)) :
    Tallies (histogram.observe latency) (latency ::ₘ latencies) := by
  obtain ⟨range,few⟩ := fits
  obtain ⟨least,most⟩ := range latency (Multiset.mem_cons_self _ _)
  rw [Multiset.card_cons] at few
  rw [observe,if_neg (by omega),dif_neg (by omega)]
  refine ⟨fun index inside => ?_,?_,fun bound => ?_⟩
  · have part := Multiset.countP_le_card (bucketOf · = index) latencies
    have here : bucketOf latency = bucketIndex latency.toNat := rfl
    rw [Vector.getElem_set,Multiset.countP_cons]
    split
    · rename_i same
      subst same
      rw [tallies.bucket _ inside,if_pos here]
      exact saturatedAdd_eq (by omega)
    · rename_i other
      rw [if_neg (here ▸ other)]
      exact tallies.bucket index inside
  · rw [Multiset.card_cons,← tallies.count]
    exact saturatedAdd_eq (by rw [tallies.count]; omega)
  · rw [Multiset.forall_mem_cons,max_le_iff,tallies.maximum]
    tauto

theorem Tallies.merged {histogram other : LatencyHistogram} {latencies others : Multiset Int}
    (tallies : Tallies histogram latencies) (besides : Tallies other others)
    (few : (latencies+others).card < 2^64) : Tallies (histogram.merge other) (latencies+others) := by
  rw [Multiset.card_add] at few
  refine ⟨fun index inside => ?_,?_,fun bound => ?_⟩
  · have part := Multiset.countP_le_card (bucketOf · = index) latencies
    have part' := Multiset.countP_le_card (bucketOf · = index) others
    rw [merge,Vector.getElem_zipWith,tallies.bucket index inside,besides.bucket index inside,Multiset.countP_add]
    exact saturatedAdd_eq (by omega)
  · rw [merge,tallies.count,besides.count,Multiset.card_add]
    exact saturatedAdd_eq few
  · rw [merge,max_le_iff,tallies.maximum,besides.maximum]
    simp only [Multiset.mem_add,or_imp,forall_and]
    tauto

-- Below 2^64 latencies no counter saturates.
theorem Collects.tallies {histogram : LatencyHistogram} {latencies : Multiset Int}
    (collects : Collects histogram latencies) (fits : Fits latencies) : Tallies histogram latencies := by
  induction collects with
  | empty => exact ⟨fun index inside => by simp [LatencyHistogram.empty],rfl,fun bound => by simp [LatencyHistogram.empty]⟩
  | observe latency _ ih =>
    have before := ih ⟨fun latency member => fits.1 latency (Multiset.mem_cons_of_mem member),
      Nat.lt_of_le_of_lt (by rw [Multiset.card_cons]; omega) fits.2⟩
    exact before.observed fits
  | merge _ _ ih ih' =>
    obtain ⟨range,few⟩ := fits
    have sizes := few
    rw [Multiset.card_add] at sizes
    have first := ih ⟨fun latency member => range latency (Multiset.mem_add.mpr (.inl member)),by omega⟩
    have second := ih' ⟨fun latency member => range latency (Multiset.mem_add.mpr (.inr member)),by omega⟩
    exact first.merged second few

section Scanning
variable {latencies : Multiset Int} {smallest : Int} {rank : Nat}

-- Induction on the buckets that are left: before each, `cumulative` counts the
-- latencies of the buckets passed, and the latency of the rank is in none of those.
theorem scan_found (maximum : Int) (first : 1 ≤ rank) (found : Rank.nth latencies rank = some smallest) (few : latencies.card < 2^64) :
    ∀ (buckets : List Nat) (index : Nat),
      (∀ offset (inside : offset < buckets.length), buckets[offset] = latencies.countP (bucketOf · = index+offset)) →
      index ≤ bucketOf smallest → bucketOf smallest < index+buckets.length →
      scan rank maximum buckets index (latencies.countP (bucketOf · < index)) =
        some (min (bucketUpper (bucketOf smallest) : Int) maximum) := by
  intro buckets
  induction buckets with
  | nil => intro index _ passed ahead; rw [List.length_nil] at ahead; omega
  | cons bucket rest ih =>
    intro index counts passed ahead
    have here : bucket = latencies.countP (bucketOf · = index) := counts 0 (Nat.zero_lt_succ _)
    have sum := Rank.countP_succ latencies bucketOf index
    have most := Multiset.countP_le_card (bucketOf · < index+1) latencies
    have reached := Rank.bucket_lt_iff (index+1) bucketOf_mono first found
    simp only [scan]
    rw [here,saturatedAdd_eq (by omega),← sum]
    split
    · rename_i enough
      have same : index = bucketOf smallest := by
        omega
      rw [same]
    · rename_i short
      have beyond : index+1 ≤ bucketOf smallest := by
        omega
      refine ih (index+1) (fun offset inside => ?_) beyond (by rw [List.length_cons] at ahead; omega)
      have next := counts (offset+1) (Nat.succ_lt_succ inside)
      rwa [List.getElem_cons_succ,Nat.add_comm offset,← Nat.add_assoc] at next

theorem Tallies.ranked {histogram : LatencyHistogram} (tallies : Tallies histogram latencies) (fits : Fits latencies)
    (first : 1 ≤ rank) (found : Rank.nth latencies rank = some smallest) :
    histogram.ranked rank = some (min (bucketUpper (bucketOf smallest) : Int) histogram.maximum) := by
  have range := fits.1 smallest (Rank.nth_mem found)
  have inside : bucketOf smallest < kBucketCount := bucketIndex_lt (by omega)
  have start : latencies.countP (bucketOf · < 0) = 0 := by simp
  have scanned := scan_found histogram.maximum first found fits.2 histogram.buckets.toList 0
    (fun offset within => by simpa using tallies.bucket offset (by simpa using within)) (Nat.zero_le _)
    (by simpa using inside)
  rwa [start] at scanned

end Scanning

-- Whatever the histograms and the order of their merges, the value for a rank is the
-- same; it is not below the latency of the rank, less than a part of 128 above it,
-- not above the largest latency, and not above the value for a later rank.
theorem quantile_bounded {histogram : LatencyHistogram} {latencies : Multiset Int} {rank : Nat}
    (collects : Collects histogram latencies) (range : ∀ latency ∈ latencies, 1 ≤ latency ∧ latency ≤ kMaximum)
    (few : latencies.card < 2^64) (first : 1 ≤ rank) (last : rank ≤ latencies.card) :
    ∃ smallest value, Rank.nth latencies rank = some smallest ∧ histogram.ranked rank = some value ∧
      smallest ≤ value ∧ 128*(value-smallest) < smallest ∧
      (∀ largest, (∀ latency ∈ latencies, latency ≤ largest) → value ≤ largest) ∧
      (∀ later value', rank ≤ later → later ≤ latencies.card → histogram.ranked later = some value' → value ≤ value') ∧
      (∀ other, Collects other latencies → other.ranked rank = some value) := by
  obtain ⟨smallest,found⟩ := Rank.nth_exists first last
  have tallies := collects.tallies ⟨range,few⟩
  have member := Rank.nth_mem found
  have bounds := range smallest member
  have known := (tallies.maximum histogram.maximum).mp (Int.le_refl _)
  obtain ⟨above,near⟩ := bucketUpper_bucketIndex (show 1 ≤ smallest.toNat by omega)
  have largest := known.2 smallest member
  refine ⟨smallest,_,found,tallies.ranked ⟨range,few⟩ first found,?_,?_,?_,?_,?_⟩
  · simp only [bucketOf]
    omega
  · simp only [bucketOf]
    omega
  · intro bound all
    have positive := all smallest member
    have capped := (tallies.maximum bound).mpr ⟨by omega,all⟩
    omega
  · intro later value' order within returned
    obtain ⟨smallest',found'⟩ := Rank.nth_exists (Nat.le_trans first order) within
    rw [tallies.ranked ⟨range,few⟩ (Nat.le_trans first order) found'] at returned
    cases returned
    have uppers := bucketUpper_mono (bucketOf_mono (Rank.nth_mono found found' order))
    omega
  · intro other collected
    have known' := collected.tallies ⟨range,few⟩
    have same : other.maximum = histogram.maximum :=
      le_antisymm ((known'.maximum _).mpr known) ((tallies.maximum _).mpr ((known'.maximum _).mp (Int.le_refl _)))
    rw [known'.ranked ⟨range,few⟩ first found,same]

theorem quantile_bounded_two : ∃ smallest value, Rank.nth {300,200} 1 = some smallest ∧
    ((empty.observe 300).merge (empty.observe 200)).ranked 1 = some value ∧ smallest ≤ value ∧ 128*(value-smallest) < smallest := by
  have collects : Collects ((empty.observe 300).merge (empty.observe 200)) ((300 ::ₘ 0)+(200 ::ₘ 0)) :=
    .merge (.observe 300 .empty) (.observe 200 .empty)
  obtain ⟨smallest,value,found,returned,above,near,-⟩ :=
    quantile_bounded collects (by decide) (by decide) (Nat.le_refl 1) (by decide)
  exact ⟨smallest,value,found,returned,above,near⟩

end LatencyHistogram
end ForgeKv.Benchmarking
