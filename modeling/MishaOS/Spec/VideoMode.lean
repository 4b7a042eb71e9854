import MishaOS.Native.BootLoader

/-!
# The video mode of the BIOS loader

The comparisons of `bios_video_mode` amount to one score for each mode, and the
first mode with the best score is set.

## Key results

- `videoModeStep_eq`: one round of the loop.
- `bios_video_mode_best`: which mode is set.
-/

namespace MishaOS

variable {query : BitVec 16 → VbeInfo} {modes : List (BitVec 16)}

/-- The score of a resolution, in the order of the calls of `match`. -/
def resolutionScore (v : VbeInfo) (other s₁ s₂ s₃ s₄ s₅ : Nat) : Nat :=
  if v.width = 1024 ∧ v.height = 768 then s₁
  else if v.width = 1280 ∧ v.height = 720 then s₂
  else if v.width = 1280 ∧ v.height = 800 then s₃
  else if v.width = 1440 ∧ v.height = 900 then s₄
  else if v.width = 1920 ∧ v.height = 1080 then s₅
  else other

/-- What a mode is worth; 0 if it cannot be used. -/
def videoScore (v : VbeInfo) : Nat :=
  if v.attributes &&& 0x80 = 0 then 0
  else if v.bpp = 32 then resolutionScore v 9 10 50 60 75 100
  else if v.bpp = 24 then resolutionScore v 1 3 4 5 6 7
  else 0

theorem VideoMatch.match_other {b : VideoMatch} {i : BitVec 16} {v : VbeInfo}
    {w h : BitVec 16} {s : Nat}
    (hne : ¬ (v.width = w ∧ v.height = h)) : b.match i v w h s = b :=
  if_neg fun hall => hne hall.2

/-- The score of a mode that can be used is at least `other`, so the order of the tests does not
    matter. -/
theorem VideoMatch.match_this {b : VideoMatch} {i : BitVec 16} {v : VbeInfo} {w h : BitVec 16}
    {other s : Nat}
    (hw : v.width = w) (hh : v.height = h) (hs : other < s) :
    (if b.score < other then ⟨i, other⟩ else b : VideoMatch).match i v w h s = if b.score < s
      then ⟨i, s⟩ else b := by
  unfold VideoMatch.match
  split
  · rw [if_pos ⟨hs, hw, hh⟩, if_pos (by omega)]
  · by_cases hbetter : b.score < s
    · rw [if_pos ⟨hbetter, hw, hh⟩, if_pos hbetter]
    · rw [if_neg fun hall => hbetter hall.1, if_neg hbetter]

/-- A resolution is found by one call of `match` at most. -/
theorem match_resolutions (b : VideoMatch) (i : BitVec 16) (v : VbeInfo)
    {other s₁ s₂ s₃ s₄ s₅ : Nat}
    (h₁ : other < s₁) (h₂ : other < s₂) (h₃ : other < s₃) (h₄ : other < s₄) (h₅ : other < s₅) :
    (((((if b.score < other then ⟨i, other⟩ else b : VideoMatch).match i v 1024 768 s₁).match i
      v 1280 720 s₂).match i v
        1280 800 s₃).match i v 1440 900 s₄).match i v 1920 1080 s₅ =
      if b.score < resolutionScore v other s₁ s₂ s₃ s₄ s₅
        then ⟨i, resolutionScore v other s₁ s₂ s₃ s₄ s₅⟩ else b := by
  -- a mode has one resolution
  have hno {w h w' h' : BitVec 16} (hd : v.width = w ∧ v.height = h) (hne : ¬ (w = w' ∧ h = h')) :
      ¬ (v.width = w' ∧ v.height = h') := by
    rw [hd.1, hd.2]
    exact hne
  unfold resolutionScore
  -- the five calls in order; the first that matches settles it
  by_cases d₁ : v.width = 1024 ∧ v.height = 768
  · simp only [if_pos d₁]
    rw [VideoMatch.match_this d₁.1 d₁.2 h₁, VideoMatch.match_other (hno d₁ (by decide)),
      VideoMatch.match_other (hno d₁ (by decide)), VideoMatch.match_other (hno d₁ (by decide)),
      VideoMatch.match_other (hno d₁ (by decide))]
  simp only [if_neg d₁]
  rw [VideoMatch.match_other d₁]
  by_cases d₂ : v.width = 1280 ∧ v.height = 720
  · simp only [if_pos d₂]
    rw [VideoMatch.match_this d₂.1 d₂.2 h₂, VideoMatch.match_other (hno d₂ (by decide)),
      VideoMatch.match_other (hno d₂ (by decide)), VideoMatch.match_other (hno d₂ (by decide))]
  simp only [if_neg d₂]
  rw [VideoMatch.match_other d₂]
  by_cases d₃ : v.width = 1280 ∧ v.height = 800
  · simp only [if_pos d₃]
    rw [VideoMatch.match_this d₃.1 d₃.2 h₃, VideoMatch.match_other (hno d₃ (by decide)),
      VideoMatch.match_other (hno d₃ (by decide))]
  simp only [if_neg d₃]
  rw [VideoMatch.match_other d₃]
  by_cases d₄ : v.width = 1440 ∧ v.height = 900
  · simp only [if_pos d₄]
    rw [VideoMatch.match_this d₄.1 d₄.2 h₄, VideoMatch.match_other (hno d₄ (by decide))]
  simp only [if_neg d₄]
  rw [VideoMatch.match_other d₄]
  by_cases d₅ : v.width = 1920 ∧ v.height = 1080
  · simp only [if_pos d₅]
    rw [VideoMatch.match_this d₅.1 d₅.2 h₅]
  simp only [if_neg d₅]
  rw [VideoMatch.match_other d₅]

/-- One round: a better mode replaces the best one so far. -/
theorem videoModeStep_eq (b : VideoMatch) (i : BitVec 16) : videoModeStep query b i =
    if b.score < videoScore (query i) then ⟨i, videoScore (query i)⟩ else b := by
  unfold videoModeStep videoScore
  generalize query i = v
  dsimp only
  -- a mode that is not supported scores 0
  split
  · exact (if_neg (Nat.not_lt_zero _)).symm
  -- 32 bits, 24 bits, or neither of them
  · by_cases h32 : v.bpp = 32
    · rw [if_neg (by rw [h32]; decide), if_pos h32, if_pos h32]
      exact match_resolutions b i v (by decide) (by decide) (by decide) (by decide) (by decide)
    · by_cases h24 : v.bpp = 24
      · have hfirst : (if b.score = 0 then ⟨i, 1⟩ else b : VideoMatch) = if b.score < 1
            then ⟨i, 1⟩ else b := by
          by_cases hzero : b.score = 0
          · rw [if_pos hzero, if_pos (by omega)]
          · rw [if_neg hzero, if_neg (by omega)]
        rw [if_neg (by rw [h24]; decide), if_neg h32, if_neg h32, if_pos h24, if_pos h24, hfirst]
        exact match_resolutions b i v (by decide) (by decide) (by decide) (by decide) (by decide)
      · rw [if_neg h32, if_neg h24, if_neg h32, if_neg h24]
        split
        · exact (if_neg (Nat.not_lt_zero _)).symm
        · exact (if_neg (Nat.not_lt_zero _)).symm

/-- `m` is the first of the modes with the best score, and can be used. -/
def FirstBest (query : BitVec 16 → VbeInfo) (modes : List (BitVec 16)) (m : BitVec 16) : Prop :=
  0 < videoScore (query m) ∧ ∃ before after, modes = before ++ m :: after ∧
    (∀ i ∈ before, videoScore (query i) < videoScore (query m)) ∧
      ∀ i ∈ after, videoScore (query i) ≤ videoScore (query m)

/-- What the loop has found in the modes so far. -/
def VideoMatch.Is (query : BitVec 16 → VbeInfo) (modes : List (BitVec 16))
    (b : VideoMatch) : Prop :=
  (b = ⟨0, 0⟩ ∧ ∀ i ∈ modes, videoScore (query i) = 0) ∨
    (b.score = videoScore (query b.mode) ∧ FirstBest query modes b.mode)

theorem VideoMatch.Is.step {b : VideoMatch} (h : b.Is query modes) (i : BitVec 16) :
    (videoModeStep query b i).Is query (modes ++ [i]) := by
  rw [videoModeStep_eq]
  rcases h with ⟨rfl, hnone⟩ | ⟨hscore, hbest, before, after, rfl, hbefore, hafter⟩
  · split
    · rename_i hbetter
      refine .inr ⟨rfl, hbetter, modes, [], rfl, fun j hj => ?_,
        fun j hj => absurd hj List.not_mem_nil⟩
      rw [hnone j hj]
      exact hbetter
    · rename_i hworse
      refine .inl ⟨rfl, fun j hj => ?_⟩
      rcases List.mem_append.mp hj with hj | hj
      · exact hnone j hj
      · obtain rfl := List.mem_singleton.mp hj
        exact Nat.eq_zero_of_not_pos hworse
  · rw [hscore]
    split
    · rename_i hbetter
      refine .inr ⟨rfl, Nat.zero_lt_of_lt hbetter, before ++ b.mode :: after, [], rfl,
        fun j hj => ?_,
        fun j hj => absurd hj List.not_mem_nil⟩
      -- nobody before is better than the mode that is replaced
      rcases List.mem_append.mp hj with hj | hj
      · exact Nat.lt_trans (hbefore j hj) hbetter
      · rcases List.mem_cons.mp hj with rfl | hj
        · exact hbetter
        · exact Nat.lt_of_le_of_lt (hafter j hj) hbetter
    · rename_i hworse
      refine .inr ⟨hscore, hbest, before, after ++ [i],
        by rw [List.append_assoc, List.cons_append], hbefore, fun j hj => ?_⟩
      rcases List.mem_append.mp hj with hj | hj
      · exact hafter j hj
      · obtain rfl := List.mem_singleton.mp hj
        omega

theorem foldl_videoModeStep (query : BitVec 16 → VbeInfo) (modes : List (BitVec 16)) :
    (modes.foldl (videoModeStep query) ⟨0, 0⟩).Is query modes := by
  induction modes using List.reverseRecOn with
  | nil => exact .inl ⟨rfl, fun i hi => absurd hi List.not_mem_nil⟩
  | append_singleton modes i ih =>
    rw [List.foldl_concat]
    exact ih.step i

/-- Two first best modes of a list are the same: neither can stand before the other. -/
theorem FirstBest.unique {m m' : BitVec 16} (h : FirstBest query modes m)
    (h' : FirstBest query modes m') : m = m' := by
  obtain ⟨-, before, after, rfl, hbefore, hafter⟩ := h
  obtain ⟨-, before', after', heq, hbefore', hafter'⟩ := h'
  obtain ⟨between, rfl, hrest⟩ | ⟨between, rfl, hrest⟩ := List.append_eq_append_iff.mp heq
  · cases between with
    | nil => exact (List.cons.inj hrest).1
    | cons j between =>
      -- `m` stands before `m'`, so it is worse, and `m'` stands after `m`, so it is not better
      obtain ⟨rfl, rfl⟩ := List.cons.inj hrest
      have hlt := hbefore' m (List.mem_append_right _ List.mem_cons_self)
      have hle := hafter m' (List.mem_append_right _ List.mem_cons_self)
      omega
  · cases between with
    | nil => exact (List.cons.inj hrest).1.symm
    | cons j between =>
      obtain ⟨rfl, rfl⟩ := List.cons.inj hrest
      have hlt := hbefore m' (List.mem_append_right _ List.mem_cons_self)
      have hle := hafter' m (List.mem_append_right _ List.mem_cons_self)
      omega

/-- A mode is set iff it is the first with the best score, and is not mode 0: that number also
    stands for "not found". -/
theorem bios_video_mode_best (query : BitVec 16 → VbeInfo) (modes : List (BitVec 16))
    (m : BitVec 16) :
    biosVideoMode query modes = some m ↔ m ≠ 0 ∧ FirstBest query modes m := by
  have hfound := foldl_videoModeStep query modes
  unfold biosVideoMode
  generalize modes.foldl (videoModeStep query) ⟨0, 0⟩ = b at hfound
  show (if b.mode = 0 then none else some b.mode) = some m ↔ _
  constructor
  · intro hset
    -- the mode found last is the best one; 0 says that none was found
    split at hset
    · cases hset
    · rename_i hmode
      obtain rfl := Option.some.inj hset
      rcases hfound with ⟨rfl, -⟩ | ⟨-, hbest⟩
      · exact absurd rfl hmode
      · exact ⟨hmode, hbest⟩
  · intro ⟨hmode, hbest⟩
    have hsame : b.mode = m := by
      rcases hfound with ⟨-, hnone⟩ | ⟨-, hbest'⟩
      · obtain ⟨hpos, before, after, rfl, -⟩ := hbest
        have hzero := hnone m (List.mem_append_right _ List.mem_cons_self)
        omega
      · exact hbest'.unique hbest
    rw [hsame, if_neg hmode]

end MishaOS
