import Mathlib.Data.List.Basic

/-!
# Frames in a stream

A frame is a header of fixed length and a body whose length the header announces; a header may also
be refused. Because the announced length is known before the body, no frame is a proper prefix of
another, so a stream has at most one reading: its frames in order, and a rest that starts no
complete frame. `split` computes that reading, and anything that reads the stream piecemeal has only
to show that what it delivered are frames and what it still holds is stuck.
-/

namespace Framing

variable {β : Type*}

/-- A header length, and the body length that a header announces (`none` when it is refused). -/
structure Format (β : Type*) where
  headLen : Nat
  bodyLen : List β → Option Nat
  headLen_pos : 0 < headLen

namespace Format

variable (format : Format β)

def IsFrame (frame : List β) : Prop :=
  format.headLen ≤ frame.length ∧
    format.bodyLen (frame.take format.headLen) = some (frame.length - format.headLen)

/-- No complete frame starts here: the header is short or refused, or the body is short. -/
def Stuck (rest : List β) : Prop :=
  rest.length < format.headLen ∨
    ∀ n, format.bodyLen (rest.take format.headLen) = some n → rest.length < format.headLen + n

variable {format} {frame rest : List β}

theorem isFrame_append {header body : List β} (hheader : header.length = format.headLen)
    (hbody : format.bodyLen header = some body.length) : format.IsFrame (header ++ body) := by
  refine ⟨by simp [hheader], ?_⟩
  rw [List.take_left' hheader, hbody]
  simp [hheader]

theorem stuck_nil : format.Stuck [] := Or.inl format.headLen_pos

theorem IsFrame.bodyLen_append (hframe : format.IsFrame frame) (tail : List β) :
    format.bodyLen ((frame ++ tail).take format.headLen)
      = some (frame.length - format.headLen) := by
  rw [List.take_append_of_le_length hframe.1, hframe.2]

theorem IsFrame.not_stuck_append (hframe : format.IsFrame frame) (tail : List β) :
    ¬ format.Stuck (frame ++ tail) := by
  have hhead := hframe.1
  rintro (hshort | hbody)
  · rw [List.length_append] at hshort
    omega
  · have := hbody _ (hframe.bodyLen_append tail)
    rw [List.length_append] at this
    omega

/-- A frame at the front of a stream announces its own length, so there is only one. -/
theorem IsFrame.append_inj {frame' tail tail' : List β} (hframe : format.IsFrame frame)
    (hframe' : format.IsFrame frame') (heq : frame ++ tail = frame' ++ tail') :
    frame = frame' ∧ tail = tail' := by
  have hlength : frame.length = frame'.length := by
    have h := hframe.bodyLen_append tail
    rw [heq, hframe'.bodyLen_append tail', Option.some.injEq] at h
    have := hframe.1
    have := hframe'.1
    omega
  exact List.append_inj heq hlength

/-- Frames cut off a stream come first in every complete cut of it. -/
theorem frames_prefix {frames frames' : List (List β)} {tail tail' : List β}
    (hframes : ∀ frame ∈ frames, format.IsFrame frame)
    (hframes' : ∀ frame ∈ frames', format.IsFrame frame) (htail' : format.Stuck tail')
    (heq : frames.flatten ++ tail = frames'.flatten ++ tail') :
    ∃ more, frames' = frames ++ more ∧ tail = more.flatten ++ tail' := by
  induction frames generalizing frames' with
  | nil => exact ⟨frames', rfl, heq⟩
  | cons frame frames ih =>
      have hframe := hframes frame List.mem_cons_self
      rw [List.flatten_cons, List.append_assoc] at heq
      cases frames' with
      | nil =>
          rw [List.flatten_nil, List.nil_append] at heq
          exact absurd (heq ▸ htail') (hframe.not_stuck_append _)
      | cons frame' frames' =>
          have hframe' := hframes' frame' List.mem_cons_self
          rw [List.flatten_cons, List.append_assoc] at heq
          obtain ⟨rfl, hrest⟩ := hframe.append_inj hframe' heq
          obtain ⟨more, rfl, htail⟩ := ih (fun f hf => hframes f (List.mem_cons_of_mem _ hf))
            (fun f hf => hframes' f (List.mem_cons_of_mem _ hf)) hrest
          exact ⟨more, rfl, htail⟩

/-- **One reading.** Two ways to read a stream as frames and a stuck rest are the same. -/
theorem split_unique {frames frames' : List (List β)} {tail tail' : List β}
    (hframes : ∀ frame ∈ frames, format.IsFrame frame)
    (hframes' : ∀ frame ∈ frames', format.IsFrame frame)
    (htail : format.Stuck tail) (htail' : format.Stuck tail')
    (heq : frames.flatten ++ tail = frames'.flatten ++ tail') :
    frames = frames' ∧ tail = tail' := by
  obtain ⟨more, rfl, rfl⟩ := frames_prefix hframes hframes' htail' heq
  cases more with
  | nil => simp
  | cons frame more =>
      have hframe := hframes' frame (by simp)
      rw [List.flatten_cons, List.append_assoc] at htail
      exact absurd htail (hframe.not_stuck_append _)

/-! ### Computing the reading -/

variable (format)

def splitFuel : Nat → List β → List (List β) × List β
  | 0, stream => ([], stream)
  | fuel + 1, stream =>
      if stream.length < format.headLen then ([], stream)
      else
        match format.bodyLen (stream.take format.headLen) with
        | none => ([], stream)
        | some n =>
            if stream.length < format.headLen + n then ([], stream)
            else
              let later := splitFuel fuel (stream.drop (format.headLen + n))
              (stream.take (format.headLen + n) :: later.1, later.2)

def split (stream : List β) : List (List β) × List β := format.splitFuel stream.length stream

variable {format}

/-- Fuel for every byte is enough: the cut is into frames, and what is left is stuck. -/
theorem splitFuel_spec {fuel : Nat} {stream : List β} (hfuel : stream.length ≤ fuel) :
    (∀ frame ∈ (format.splitFuel fuel stream).1, format.IsFrame frame) ∧
      format.Stuck (format.splitFuel fuel stream).2 ∧
      (format.splitFuel fuel stream).1.flatten ++ (format.splitFuel fuel stream).2 = stream := by
  induction fuel generalizing stream with
  | zero =>
      obtain rfl : stream = [] := List.eq_nil_of_length_eq_zero (Nat.le_zero.mp hfuel)
      exact ⟨by simp [splitFuel], stuck_nil, rfl⟩
  | succ fuel ih =>
      have hpos := format.headLen_pos
      rw [splitFuel]
      by_cases hshort : stream.length < format.headLen
      · rw [if_pos hshort]
        exact ⟨by simp, Or.inl hshort, rfl⟩
      rw [if_neg hshort]
      cases hbody : format.bodyLen (stream.take format.headLen) with
      | none => exact ⟨by simp, Or.inr (by simp [hbody]), rfl⟩
      | some n =>
          by_cases hshortBody : stream.length < format.headLen + n
          · simp only [if_pos hshortBody]
            refine ⟨by simp, Or.inr fun m hm => ?_, rfl⟩
            rw [hbody, Option.some.injEq] at hm
            omega
          · simp only [if_neg hshortBody]
            have hdrop : (stream.drop (format.headLen + n)).length ≤ fuel := by
              rw [List.length_drop]
              omega
            obtain ⟨hframes, hstuck, hflatten⟩ := ih hdrop
            refine ⟨?_, hstuck, ?_⟩
            · intro frame hmem
              rcases List.mem_cons.mp hmem with rfl | hlater
              · refine ⟨by rw [List.length_take]; omega, ?_⟩
                rw [List.take_take, Nat.min_eq_left (by omega), hbody, List.length_take]
                congr 1
                omega
              · exact hframes frame hlater
            · rw [List.flatten_cons, List.append_assoc, hflatten, List.take_append_drop]

variable (format) in
theorem split_spec (stream : List β) :
    (∀ frame ∈ (format.split stream).1, format.IsFrame frame) ∧
      format.Stuck (format.split stream).2 ∧
      (format.split stream).1.flatten ++ (format.split stream).2 = stream :=
  splitFuel_spec Nat.le.refl

/-- **The reading of a stream.** Frames and a stuck rest that make up the stream are its `split`. -/
theorem split_eq {frames : List (List β)} {tail : List β}
    (hframes : ∀ frame ∈ frames, format.IsFrame frame) (htail : format.Stuck tail) :
    format.split (frames.flatten ++ tail) = (frames, tail) := by
  obtain ⟨hsplit, hstuck, heq⟩ := format.split_spec (frames.flatten ++ tail)
  obtain ⟨hfst, hsnd⟩ := split_unique hsplit hframes hstuck htail heq
  exact Prod.ext hfst hsnd

/-! ### Headers -/

variable (format)

def ReadsHeader (stream header : List β) : Prop :=
  header.length = format.headLen ∧ ∃ (frames : List (List β)) (tail : List β),
    (∀ frame ∈ frames, format.IsFrame frame) ∧ stream = frames.flatten ++ (header ++ tail)

/-- The headers of a stream's frames and of its rest, if that is long enough to have one. -/
def headers (stream : List β) : List (List β) :=
  (format.split stream).1.map (List.take format.headLen) ++
    if (format.split stream).2.length < format.headLen then []
    else [(format.split stream).2.take format.headLen]

variable {format}

theorem readsHeader_iff {stream header : List β} :
    format.ReadsHeader stream header ↔ header ∈ format.headers stream := by
  obtain ⟨hsplit, hstuck, heq⟩ := format.split_spec stream
  constructor
  · rintro ⟨hlength, frames, tail, hframes, hstream⟩
    obtain ⟨more, hmore, htail⟩ := frames_prefix hframes hsplit hstuck (hstream.symm.trans heq.symm)
    rw [headers, hmore, List.map_append]
    cases more with
    | nil =>
        rw [List.flatten_nil, List.nil_append] at htail
        have hlong : ¬ (format.split stream).2.length < format.headLen := by
          rw [← htail, List.length_append]
          omega
        rw [if_neg hlong, ← htail, List.take_left' hlength]
        simp
    | cons frame more =>
        have hframe := hsplit frame (by rw [hmore]; simp)
        have hheader : header = frame.take format.headLen := by
          have htake := congrArg (List.take format.headLen) htail
          rwa [List.take_left' hlength, List.flatten_cons, List.append_assoc,
            List.take_append_of_le_length hframe.1] at htake
        simp [hheader]
  · intro hmem
    rcases List.mem_append.mp hmem with hframe | hrest
    · obtain ⟨frame, hin, rfl⟩ := List.mem_map.mp hframe
      obtain ⟨before, after, hsides⟩ := List.append_of_mem hin
      refine ⟨by rw [List.length_take]; exact Nat.min_eq_left (hsplit frame hin).1, before,
        frame.drop format.headLen ++ (after.flatten ++ (format.split stream).2), ?_, ?_⟩
      · exact fun f hf => hsplit f (by rw [hsides]; simp [hf])
      · conv_lhs => rw [← heq, hsides]
        rw [← List.append_assoc (frame.take _), List.take_append_drop]
        simp
    · by_cases hshort : (format.split stream).2.length < format.headLen
      · simp [hshort] at hrest
      · rw [if_neg hshort, List.mem_singleton] at hrest
        subst hrest
        refine ⟨by rw [List.length_take]; omega, (format.split stream).1,
          (format.split stream).2.drop format.headLen, hsplit, ?_⟩
        rw [List.take_append_drop, heq]

theorem ReadsHeader.append {stream header : List β} (hheader : format.ReadsHeader stream header)
    (more : List β) : format.ReadsHeader (stream ++ more) header := by
  obtain ⟨hlength, frames, tail, hframes, rfl⟩ := hheader
  refine ⟨hlength, frames, tail ++ more, hframes, ?_⟩
  simp only [List.append_assoc]

/-- A header that is read behind frames is one of theirs, or is read in the rest. -/
theorem ReadsHeader.of_flatten_append {frames : List (List β)} {header : List β}
    (hframes : ∀ frame ∈ frames, format.IsFrame frame)
    (hheader : format.ReadsHeader (frames.flatten ++ rest) header) :
    (∃ frame ∈ frames, header = frame.take format.headLen) ∨ format.ReadsHeader rest header := by
  induction frames with
  | nil => exact .inr hheader
  | cons frame frames ih =>
      have hframe := hframes frame List.mem_cons_self
      obtain ⟨hlength, before, tail, hbefore, hstream⟩ := hheader
      rw [List.flatten_cons, List.append_assoc] at hstream
      cases before with
      | nil =>
          refine .inl ⟨frame, List.mem_cons_self, ?_⟩
          have htake := congrArg (List.take format.headLen) hstream
          rw [List.take_append_of_le_length hframe.1, List.flatten_nil, List.nil_append,
            List.take_left' hlength] at htake
          exact htake.symm
      | cons first before =>
          have hfirst := hbefore first List.mem_cons_self
          rw [List.flatten_cons, List.append_assoc] at hstream
          obtain ⟨rfl, hrest⟩ := hframe.append_inj hfirst hstream
          rcases ih (fun f hf => hframes f (List.mem_cons_of_mem _ hf))
            ⟨hlength, before, tail, fun f hf => hbefore f (List.mem_cons_of_mem _ hf), hrest⟩ with
            ⟨other, hmem, heq⟩ | hrest
          · exact .inl ⟨other, List.mem_cons_of_mem _ hmem, heq⟩
          · exact .inr hrest

theorem ReadsHeader.eq_take {header : List β} (hheader : format.ReadsHeader rest header)
    (hshort : ∀ n, format.bodyLen (rest.take format.headLen) = some n →
      rest.length < format.headLen + n + format.headLen) : header = rest.take format.headLen := by
  obtain ⟨hlength, before, tail, hbefore, rfl⟩ := hheader
  cases before with
  | nil => rw [List.flatten_nil, List.nil_append, List.take_left' hlength]
  | cons frame before =>
      have hframe := hbefore frame List.mem_cons_self
      rw [List.flatten_cons, List.append_assoc] at hshort
      have hlt := hshort _ (hframe.bodyLen_append _)
      have hle := hframe.1
      simp only [List.length_append] at hlt
      omega

instance [DecidableEq β] (stream header : List β) :
    Decidable (format.ReadsHeader stream header) :=
  decidable_of_iff _ readsHeader_iff.symm

end Format

end Framing
