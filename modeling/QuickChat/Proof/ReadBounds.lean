import QuickChat.Proof.ReadLoop

/-!
# Which streams keep the read loop in range

The loop checks the length of a header against `MAX_LENGTH` and not against zero. Below -1 the
constructor of the node throws and nothing is accessed, so -1 is the one length that gets through.
-/

namespace QuickChat

namespace CSession

/-- **When the read loop stays in range.** Every buffer access of a run is in range exactly when no
header that the loop reads announces length -1. -/
theorem accesses_inRange_iff {completions : List Completion} {session : CSession}
    (hread : read completions = some session) :
    (∀ access ∈ session.accesses, access.InRange) ↔
      ∀ header, wire.ReadsHeader (received completions) header → (headerLen header).toInt ≠ -1 := by
  constructor
  · intro hinRange
    rcases reads_or_wild hread with hreads | hwild
    · exact fun header hheader => hreads.headerLen_ne hheader
    · obtain ⟨access, hmem, hout⟩ := hwild.access
      exact absurd (hinRange access hmem) hout
  · intro hheaders
    exact (reads_of_headers hread hheaders).inRange

theorem accesses_inRange_one_message :
    ∃ session, read [.ok [0, 7, 0, 1], .ok [65]] = some session ∧
      ∀ access ∈ session.accesses, access.InRange := by
  obtain ⟨session, hread⟩ := Option.isSome_iff_exists.mp
    (show (read [.ok [0, 7, 0, 1], .ok [65]]).isSome = true by decide +kernel)
  refine ⟨session, hread, (accesses_inRange_iff hread).mpr fun header hheader => ?_⟩
  have hmem := Framing.Format.readsHeader_iff.mp hheader
  rw [show wire.headers (received [.ok [0, 7, 0, 1], .ok [65]]) = [[0, 7, 0, 1]] by decide,
    List.mem_singleton] at hmem
  rw [hmem]
  decide

/-- The stream of one header, with identifier 0 and length -1, takes the loop out of range. -/
theorem accesses_out_of_range :
    ∃ session, read [.ok [0, 0, 255, 255]] = some session ∧
      ¬ ∀ access ∈ session.accesses, access.InRange := by
  obtain ⟨session, hread⟩ := Option.isSome_iff_exists.mp
    (show (read [.ok [0, 0, 255, 255]]).isSome = true by decide +kernel)
  refine ⟨session, hread, fun hinRange => ?_⟩
  rcases reads_or_wild hread with hreads | hwild
  · have hheader : wire.ReadsHeader (received [.ok [0, 0, 255, 255]]) [0, 0, 255, 255] := by decide
    exact hreads.headerLen_ne hheader (by decide)
  · obtain ⟨access, hmem, hout⟩ := hwild.access
    exact hout (hinRange access hmem)

end CSession

end QuickChat
