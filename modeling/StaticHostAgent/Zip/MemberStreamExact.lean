import StaticHostAgent.Zip.MemberStream

/-!
# When the stream of a member is exact

What the loop accepts is a valid member and its output, whatever the decompressor holds back
(`validatedMemberChunks_sound`). A valid member is accepted unless the decompressor reads the last
of its bytes in a call that its bound cuts off (`validatedMemberChunks_complete`): nothing is left
over then, and the loop does not ask again. `exact_iff` says for which members no decompressor can
do so, `exact_fails` gives a member of 656 bytes with which the usual one does.
-/

set_option autoImplicit false

namespace StaticHostAgent.Zip

open Library Contracts

section Following

variable {format : StreamFormat} {decoder : Decompressor format} {region : Region}

/-- The loop agrees with the decompressor, which was fed `fed`. -/
structure Follows (decoder : Decompressor format) (state : decoder.State) (passed : Passed)
    (fed : Bytes) : Prop where
  size : passed.expanded = (decoder.given state).length
  sum : passed.crc32 = crc32 (decoder.given state) 0
  yields : passed.chunks.flatten = decoder.given state
  within : decoder.given state <+: (format.decode (decoder.seen state)).output
  reads : decoder.eof state = false ∧ decoder.unusedData state = [] ∧ decoder.seen state = fed ∨
    decoder.eof state = true ∧ decoder.seen state ++ decoder.unusedData state = fed ∧
      format.decode (decoder.seen state) = .ended (decoder.given state) []

theorem Follows.start (decoder : Decompressor format) :
    Follows decoder decoder.start { expanded := 0, crc32 := 0, chunks := [] } [] := by
  obtain ⟨heof, hunused, _, hseen, hgiven⟩ := decoder.start_fresh
  refine ⟨?_, ?_, ?_, ?_, .inl ⟨heof, hunused, hseen⟩⟩
  · rw [hgiven]
    rfl
  · rw [hgiven, crc32_nil]
  · rw [hgiven]
    rfl
  · rw [hgiven]
    exact List.nil_prefix

theorem outputCap_pos (region : Region) (passed : Passed) : 0 < outputCap region passed := by
  have hchunk : 0 < extractionChunkBytes := by decide
  unfold outputCap
  omega

/-- A piece of output keeps size, checksum and chunks in agreement. -/
theorem Follows.passOn {state after : decoder.State} {passed passed' : Passed} {fed : Bytes}
    (follows : Follows decoder state passed fed) {output : Bytes}
    (hpass : passOn region.member region.maximumFileBytes passed output = .ok passed')
    (hgiven : decoder.given after = decoder.given state ++ output) :
    passed'.expanded = (decoder.given after).length ∧
      passed'.crc32 = crc32 (decoder.given after) 0 ∧
      passed'.chunks.flatten = decoder.given after := by
  obtain ⟨_, rfl⟩ := passOn_ok.1 hpass
  rw [hgiven]
  refine ⟨?_, ?_, ?_⟩
  · rw [List.length_append, ← follows.size]
  · rw [crc32_append, ← follows.sum]
  · show (passed.chunks ++ [output]).flatten = _
    rw [List.flatten_append, follows.yields, List.flatten_singleton]

/-- One call: part of the data counts as fed, the rest is the unconsumed tail. -/
theorem Follows.call {state after : decoder.State} {passed passed' : Passed} {fed : Bytes}
    (follows : Follows decoder state passed fed) {pending output : Bytes}
    (hcall : decoder.decompress state pending (outputCap region passed) = some (output, after))
    (hpass : Zip.passOn region.member region.maximumFileBytes passed output = .ok passed') :
    ∃ taken, pending = taken ++ decoder.unconsumedTail after ∧
      Follows decoder after passed' (fed ++ taken) := by
  rcases follows.reads with ⟨hopen, _, hseen⟩ | ⟨hended, hseen, hdecode⟩
  · have contract := decoder.returns hopen (outputCap_pos region passed) hcall
    obtain ⟨hsize, hsum, hyields⟩ := follows.passOn hpass contract.gives
    obtain ⟨taken, rest, hdata, hread, hcase⟩ := contract.reads
    rcases hcase with ⟨heof, hunused, htail, hstream⟩ | ⟨heof, hunused, htail, _, hwithin, _⟩
    · refine ⟨pending, by rw [htail, List.append_nil], hsize, hsum, hyields, ?_,
        .inr ⟨heof, ?_, hstream⟩⟩
      · rw [hstream]
        exact List.prefix_refl _
      · rw [hread, hunused, hseen, hdata, List.append_assoc]
    · exact ⟨taken, by rw [htail, hdata], hsize, hsum, hyields, hwithin,
        .inl ⟨heof, hunused, by rw [hread, hseen]⟩⟩
  · obtain ⟨t, hthen, heof, hunused, htail, hsame, hgiven⟩ :=
      decoder.ends pending (outputCap region passed) hended
    rw [hthen] at hcall
    obtain ⟨rfl, rfl⟩ := Prod.mk.inj (Option.some.inj hcall)
    obtain ⟨hsize, hsum, hyields⟩ := follows.passOn hpass (hgiven.trans (List.append_nil _).symm)
    refine ⟨pending, by rw [htail, List.append_nil], hsize, hsum, hyields, ?_,
      .inr ⟨heof, ?_, ?_⟩⟩
    · rw [hsame, hgiven]
      exact follows.within
    · rw [hsame, hunused, ← List.append_assoc, hseen]
    · rw [hsame, hgiven, hdecode]

theorem drain_nil (state : decoder.State) (passed : Passed) :
    drain decoder region state [] passed = .ok (state, passed) := by
  rw [drain, dif_pos rfl]

theorem drain_follows {state after : decoder.State} {passed passed' : Passed} {fed pending : Bytes}
    (follows : Follows decoder state passed fed)
    (h : drain decoder region state pending passed = .ok (after, passed')) :
    Follows decoder after passed' (fed ++ pending) := by
  fun_induction drain decoder region state pending passed generalizing fed with
  | case1 state passed =>
      obtain ⟨rfl, rfl⟩ := Prod.mk.inj (Except.ok.inj h)
      rw [List.append_nil]
      exact follows
  | case2 => exact nomatch h
  | case3 => exact nomatch h
  | case4 => exact nomatch h
  | case5 state pending passed hpending output next hcall passed₁ hpass hgoes ih =>
      obtain ⟨taken, hsplit, hfollows⟩ := follows.call hcall hpass
      have hrest := ih hfollows h
      rw [hsplit, ← List.append_assoc]
      exact hrest

/-! ## What is accepted is valid -/

/-- The next piece of the range. -/
theorem readSource_range {offset remaining consumed : Nat}
    (hoffset : offset = region.member.dataOffset + consumed)
    (hremaining : remaining = region.member.compressedBytes - consumed)
    (hconsumed : consumed ≤ region.member.compressedBytes) :
    ∃ chunk, readSource region.source offset (min remaining extractionChunkBytes) = .ok chunk ∧
      region.range.take consumed ++ chunk =
        region.range.take (consumed + min remaining extractionChunkBytes) ∧
      chunk.length = min remaining extractionChunkBytes := by
  have hinside := region.inside
  refine ⟨(region.source.drop offset).take (min remaining extractionChunkBytes), ?_, ?_, ?_⟩
  · unfold readSource
    have hlies : offset + min remaining extractionChunkBytes ≤ region.source.length := by omega
    rw [decide_eq_true hlies]
    rfl
  · rw [List.take_add]
    congr 1
    unfold Region.range
    rw [List.drop_take, List.drop_drop, List.take_take, hoffset]
    congr 1
    omega
  · rw [List.length_take, List.length_drop]
    omega

theorem inflateRange_zero (state : decoder.State) (offset : Nat) (passed : Passed) :
    inflateRange decoder region state offset 0 passed = .ok (state, passed) := by
  rw [inflateRange, if_pos rfl]

/-- A step of the outer loop whose reading and draining succeed. -/
theorem inflateRange_ok {state after : decoder.State} {passed passed' : Passed}
    {offset remaining : Nat} {chunk : Bytes} (hmore : remaining ≠ 0)
    (hread : readSource region.source offset (min remaining extractionChunkBytes) = .ok chunk)
    (h : inflateRange decoder region state offset remaining passed = .ok (after, passed')) :
    ∃ next passed₁, drain decoder region state chunk passed = .ok (next, passed₁) ∧
      inflateRange decoder region next (offset + min remaining extractionChunkBytes)
        (remaining - min remaining extractionChunkBytes) passed₁ = .ok (after, passed') := by
  rw [inflateRange, if_neg hmore, hread, ok_bind] at h
  obtain ⟨⟨next, passed₁⟩, hdrain, h⟩ := bind_eq_ok.1 h
  exact ⟨next, passed₁, hdrain, h⟩

theorem inflateRange_follows {state after : decoder.State} {passed passed' : Passed}
    {offset remaining consumed : Nat}
    (follows : Follows decoder state passed (region.range.take consumed))
    (hoffset : offset = region.member.dataOffset + consumed)
    (hremaining : remaining = region.member.compressedBytes - consumed)
    (hconsumed : consumed ≤ region.member.compressedBytes)
    (h : inflateRange decoder region state offset remaining passed = .ok (after, passed')) :
    Follows decoder after passed' region.range := by
  induction remaining using Nat.strong_induction_on generalizing state passed offset consumed with
  | _ remaining ih =>
      have hchunk : 0 < extractionChunkBytes := by decide
      by_cases hdone : remaining = 0
      · rw [hdone, inflateRange_zero] at h
        obtain ⟨rfl, rfl⟩ := Prod.mk.inj (Except.ok.inj h)
        rw [List.take_of_length_le (by rw [region.range_length]; omega)] at follows
        exact follows
      · obtain ⟨chunk, hread, htake, hlength⟩ :=
          readSource_range hoffset hremaining hconsumed
        obtain ⟨next, passed₁, hdrain, h⟩ := inflateRange_ok hdone hread h
        have hnext := drain_follows follows hdrain
        rw [htake] at hnext
        exact ih _ (by omega) hnext (by omega) (by omega) (by omega) h

theorem finish_ok {member : ZipMember} {passed : Passed} {chunks : List Bytes} :
    finish member passed = .ok chunks ↔
      passed.expanded = member.expandedBytes ∧ passed.crc32 = member.crc32 ∧
        chunks = passed.chunks := by
  unfold finish
  constructor
  · intro h
    obtain ⟨_, hsize, h⟩ := bind_eq_ok.1 h
    obtain ⟨_, hsum, h⟩ := bind_eq_ok.1 h
    exact ⟨of_decide_eq_true (require_eq_ok.1 hsize), of_decide_eq_true (require_eq_ok.1 hsum),
      (pure_eq_ok.1 h).symm⟩
  · rintro ⟨hsize, hsum, rfl⟩
    rw [decide_eq_true hsize, decide_eq_true hsum]
    rfl

/-- What the checks after the loop of a compressed member ask for. -/
theorem validatedMemberChunks_ok (hdeflate : region.member.compressionMethod ≠ 0)
    {chunks : List Bytes} :
    validatedMemberChunks decoder region = .ok chunks ↔
      ∃ after passed, inflateRange decoder region decoder.start region.member.dataOffset
          region.member.compressedBytes { expanded := 0, crc32 := 0, chunks := [] } =
            .ok (after, passed) ∧
        (decoder.eof after = true ∧ decoder.unusedData after = [] ∧
          decoder.unconsumedTail after = []) ∧
        passed.expanded = region.member.expandedBytes ∧ passed.crc32 = region.member.crc32 ∧
        chunks = passed.chunks := by
  unfold validatedMemberChunks
  rw [if_neg hdeflate]
  constructor
  · intro h
    obtain ⟨⟨after, passed⟩, hrun, h⟩ := bind_eq_ok.1 h
    obtain ⟨_, hend, h⟩ := bind_eq_ok.1 h
    have hend := require_eq_ok.1 hend
    simp only [Bool.and_eq_true, decide_eq_true_eq] at hend
    exact ⟨after, passed, hrun, ⟨hend.1.1, hend.1.2, hend.2⟩, finish_ok.1 h⟩
  · rintro ⟨after, passed, hrun, ⟨heof, hunused, htail⟩, hfinish⟩
    refine bind_eq_ok.2 ⟨(after, passed), hrun, bind_eq_ok.2 ⟨(), require_eq_ok.2 ?_,
      finish_ok.2 hfinish⟩⟩
    rw [heof, decide_eq_true hunused, decide_eq_true htail]
    rfl

theorem validatedMemberChunks_sound (hdeflate : region.member.compressionMethod ≠ 0)
    {chunks : List Bytes} (h : validatedMemberChunks decoder region = .ok chunks) :
    region.Valid format ∧ format.decode region.range = .ended chunks.flatten [] := by
  obtain ⟨after, passed, hrun, ⟨heof, hunused, _⟩, hsize, hsum, rfl⟩ :=
    (validatedMemberChunks_ok hdeflate).1 h
  have hstart : Follows decoder decoder.start { expanded := 0, crc32 := 0, chunks := [] }
      (region.range.take 0) := Follows.start decoder
  have follows := inflateRange_follows hstart rfl rfl (Nat.zero_le _) hrun
  rcases follows.reads with ⟨hopen, _, _⟩ | ⟨_, hfed, hdecode⟩
  · rw [hopen] at heof
    exact nomatch heof
  · rw [hunused, List.append_nil] at hfed
    rw [hfed] at hdecode
    refine ⟨⟨_, hdecode, ?_, ?_⟩, ?_⟩
    · rw [← follows.size, hsize]
    · rw [← follows.sum, hsum]
    · rw [follows.yields, hdecode]

/-! ## What is valid is accepted, if nothing is held back at the end -/

/-- The end of a stream that is the whole range is not reached before the range is read. -/
theorem Follows.all_read {state : decoder.State} {passed : Passed} {fed rest output : Bytes}
    (follows : Follows decoder state passed fed) (hfed : fed ++ rest = region.range)
    (hrange : format.decode region.range = .ended output []) :
    decoder.eof state = true → rest = [] ∧ decoder.unusedData state = [] := by
  intro hended
  rcases follows.reads with ⟨hopen, _, _⟩ | ⟨_, hseen, hdecode⟩
  · rw [hopen] at hended
    exact nomatch hended
  · rw [← hfed, ← hseen, List.append_assoc] at hrange
    obtain ⟨_, _, hend⟩ := format.before_end hrange
    obtain ⟨_, _, hnil⟩ := hend _ _ hdecode
    obtain ⟨hunused, hrest⟩ := List.append_eq_nil_iff.1 hnil
    exact ⟨hrest, hunused⟩

/-- What was handed out begins the output of the stream. -/
theorem Follows.given_prefix {state after : decoder.State} {passed : Passed}
    {fed pending rest output piece : Bytes} (follows : Follows decoder state passed fed)
    (hopen : decoder.eof state = false) (hfed : fed ++ pending ++ rest = region.range)
    (hrange : format.decode region.range = .ended output [])
    (hcall : decoder.decompress state pending (outputCap region passed) = some (piece, after)) :
    decoder.given after <+: output := by
  have contract := decoder.returns hopen (outputCap_pos region passed) hcall
  obtain ⟨taken, left, hdata, hread, hcase⟩ := contract.reads
  have hseen : decoder.seen state = fed := by
    rcases follows.reads with ⟨_, _, hseen⟩ | ⟨hended, _⟩
    · exact hseen
    · rw [hopen] at hended
      exact nomatch hended
  have hwhole : decoder.seen after ++ (left ++ rest) = region.range := by
    rw [hread, hseen, ← hfed, hdata]
    simp only [List.append_assoc]
  rw [← hwhole] at hrange
  obtain ⟨_, hinitial, _⟩ := format.before_end hrange
  rcases hcase with ⟨_, _, _, hstream⟩ | ⟨_, _, _, _, hgiven, _⟩
  · rw [hstream] at hinitial
    exact hinitial
  · exact hgiven.trans hinitial

/-- How a piece of a valid range is left: read, and either at the end, or with nothing held back, or
after a call that handed out as much as it may. -/
structure Drained (decoder : Decompressor format) (before : Nat) (after : decoder.State)
    (passed : Passed) (fed : Bytes) : Prop where
  follows : Follows decoder after passed fed
  tail : decoder.unconsumedTail after = []
  settled : decoder.eof after = true ∨
    format.decode (decoder.seen after) = .ongoing (decoder.given after) ∨
    before + extractionChunkBytes ≤ (decoder.given after).length

theorem drain_runs {state : decoder.State} {passed : Passed} {fed pending rest output : Bytes}
    (follows : Follows decoder state passed fed) (hopen : decoder.eof state = false)
    (hfed : fed ++ pending ++ rest = region.range) (hpending : pending ≠ [])
    (hrange : format.decode region.range = .ended output [])
    (hsize : output.length = region.member.expandedBytes) :
    ∃ after passed', drain decoder region state pending passed = .ok (after, passed') ∧
      Drained decoder (decoder.given state).length after passed' (fed ++ pending) := by
  fun_induction drain decoder region state pending passed generalizing fed with
  | case1 => exact absurd rfl hpending
  | case2 state pending passed _ hcall =>
      -- only bytes that are no stream raise an error
      have hinvalid := decoder.raises hopen hcall
      rcases follows.reads with ⟨_, _, hseen⟩ | ⟨hended, _⟩
      · rw [hseen] at hinvalid
        rw [← hfed] at hrange
        exact absurd hinvalid (format.before_end hrange).1
      · rw [hopen] at hended
        exact nomatch hended
  | case3 state pending passed _ piece next hcall e hpass =>
      -- the output so far is no longer than all of it
      exfalso
      have hinitial := follows.given_prefix hopen hfed hrange hcall
      have contract := decoder.returns hopen (outputCap_pos region passed) hcall
      have hlength := hinitial.length_le
      rw [contract.gives, List.length_append, ← follows.size, hsize] at hlength
      have hsmall := region.small
      have hok : Zip.passOn region.member region.maximumFileBytes passed piece = .ok _ :=
        passOn_ok.2 ⟨⟨hlength, by omega⟩, rfl⟩
      rw [hok] at hpass
      exact nomatch hpass
  | case4 state pending passed _ piece next hcall after hpass hstuck =>
      exfalso
      have contract := decoder.returns hopen (outputCap_pos region passed) hcall
      obtain ⟨taken, left, _, _, hcase⟩ := contract.reads
      rcases hcase with ⟨_, _, htail, _⟩ | ⟨_, _, htail, _, _, hall⟩
      · exact hstuck.2 htail
      · have hshort : piece.length < outputCap region passed := by
          rw [hstuck.1]
          exact outputCap_pos region passed
        exact hstuck.2 (htail.trans (hall hshort).1)
  | case5 state pending passed _ piece next hcall passed₁ hpass hgoes ih =>
      obtain ⟨taken, hsplit, hnext⟩ := follows.call hcall hpass
      have hinitial := follows.given_prefix hopen hfed hrange hcall
      have contract := decoder.returns hopen (outputCap_pos region passed) hcall
      have hlength := hinitial.length_le
      rw [contract.gives, List.length_append, hsize] at hlength
      -- a call that was cut off was cut off at 64 KiB: one byte more than declared never comes
      have hcut : ¬ piece.length < outputCap region passed →
          (decoder.given state).length + extractionChunkBytes ≤ (decoder.given next).length := by
        intro hfull
        have hsame := follows.size
        unfold outputCap at hfull
        rw [contract.gives, List.length_append]
        omega
      obtain ⟨_, left, _, _, hcase⟩ := contract.reads
      by_cases htail : decoder.unconsumedTail next = []
      · refine ⟨next, passed₁, ?_, ?_, htail, ?_⟩
        · rw [htail, drain_nil]
        · rw [hsplit, htail, List.append_nil]
          exact hnext
        · rcases hcase with ⟨heof, _⟩ | ⟨_, _, _, _, _, hall⟩
          · exact .inl heof
          · by_cases hshort : piece.length < outputCap region passed
            · exact .inr (.inl (hall hshort).2)
            · exact .inr (.inr (hcut hshort))
      · rcases hcase with ⟨_, _, hnone, _⟩ | ⟨hopen', _, hleft, _, _, hall⟩
        · exact absurd hnone htail
        · have hfull : ¬ piece.length < outputCap region passed := fun hshort =>
            htail (hleft.trans (hall hshort).1)
          have hmore := hcut hfull
          have hfed' : fed ++ taken ++ decoder.unconsumedTail next ++ rest = region.range := by
            rw [← hfed, hsplit]
            simp only [List.append_assoc]
          obtain ⟨after, passed', hrun, hdrained⟩ := ih hnext hopen' hfed' htail
          refine ⟨after, passed', hrun, ?_, hdrained.tail, ?_⟩
          · have hfollows := hdrained.follows
            rw [List.append_assoc, ← hsplit] at hfollows
            exact hfollows
          · rcases hdrained.settled with heof | hongoing | hmany
            · exact .inl heof
            · exact .inr (.inl hongoing)
            · exact .inr (.inr (by omega))

theorem Follows.seen_of_open {state : decoder.State} {passed : Passed} {fed : Bytes}
    (follows : Follows decoder state passed fed) (hopen : decoder.eof state = false) :
    decoder.seen state = fed := by
  rcases follows.reads with ⟨_, _, hseen⟩ | ⟨hended, _⟩
  · exact hseen
  · rw [hopen] at hended
    exact nomatch hended

theorem earlierPieces_eq {pieces : Nat}
    (hbefore : pieces * extractionChunkBytes < region.member.compressedBytes)
    (hlast : region.member.compressedBytes ≤ (pieces + 1) * extractionChunkBytes) :
    region.earlierPieces = pieces := by
  unfold Region.earlierPieces
  have hchunk : extractionChunkBytes = 65536 := rfl
  rw [hchunk] at hbefore hlast ⊢
  omega

/-- The run lemma of a valid range, from the end of any of its pieces. -/
theorem inflateRange_runs {state : decoder.State} {passed : Passed} {pieces remaining : Nat}
    {output : Bytes}
    (follows : Follows decoder state passed (region.range.take (pieces * extractionChunkBytes)))
    (hopen : decoder.eof state = false)
    (hremaining : remaining = region.member.compressedBytes - pieces * extractionChunkBytes)
    (hbefore : pieces * extractionChunkBytes < region.member.compressedBytes)
    (hhanded : region.handedOut format pieces ≤ (decoder.given state).length)
    (hrange : format.decode region.range = .ended output [])
    (hsize : output.length = region.member.expandedBytes) :
    ∃ after passed', inflateRange decoder region state
        (region.member.dataOffset + pieces * extractionChunkBytes) remaining passed =
          .ok (after, passed') ∧
      decoder.unconsumedTail after = [] ∧
      (decoder.eof after = true ∨
        region.handedOut format region.earlierPieces + extractionChunkBytes ≤
          (decoder.given after).length) := by
  -- on what remains: a step reads a whole piece, or the rest of the range if that is less
  induction remaining using Nat.strong_induction_on generalizing state passed pieces with
  | _ remaining ih =>
      have hchunk : 0 < extractionChunkBytes := by decide
      have hnext : (pieces + 1) * extractionChunkBytes =
          pieces * extractionChunkBytes + extractionChunkBytes := by
        rw [Nat.add_mul, Nat.one_mul]
      obtain ⟨chunk, hread, htake, hlength⟩ :=
        readSource_range rfl hremaining (Nat.le_of_lt hbefore)
      have hne : chunk ≠ [] := by
        intro hnil
        rw [hnil, List.length_nil] at hlength
        omega
      have hfed : region.range.take (pieces * extractionChunkBytes) ++ chunk ++
          region.range.drop (pieces * extractionChunkBytes + min remaining extractionChunkBytes) =
            region.range := by
        rw [htake, List.take_append_drop]
      obtain ⟨after, passed', hdrain, hdrained⟩ :=
        drain_runs follows hopen hfed hne hrange hsize
      have hfollows := hdrained.follows
      rw [htake] at hfollows
      rw [inflateRange, if_neg (by omega), hread, ok_bind, hdrain, ok_bind]
      by_cases hlast : remaining ≤ extractionChunkBytes
      · -- the last piece
        rw [Nat.min_eq_left hlast] at hfollows ⊢
        refine ⟨after, passed', ?_, hdrained.tail, ?_⟩
        · dsimp only
          rw [Nat.sub_self, inflateRange_zero]
        · rw [earlierPieces_eq hbefore (by omega)]
          rw [List.take_of_length_le (by rw [region.range_length]; omega)] at hfollows
          cases heof : decoder.eof after with
          | true => exact .inl rfl
          | false =>
              have hseen := hfollows.seen_of_open heof
              rcases hdrained.settled with hended | hongoing | hmany
              · rw [heof] at hended
                exact nomatch hended
              · rw [hseen, hrange] at hongoing
                exact nomatch hongoing
              · exact .inr (by omega)
      · rw [Nat.min_eq_right (by omega)] at hfollows hfed ⊢
        -- the stream cannot end here: everything after its end would be left over
        have hopen' : decoder.eof after = false := by
          cases heof : decoder.eof after with
          | false => rfl
          | true =>
              have hdone := hfollows.all_read (by rw [List.take_append_drop]) hrange heof
              have hrest := congrArg List.length hdone.1
              rw [List.length_drop, region.range_length, List.length_nil] at hrest
              omega
        -- a piece is left when all it yields is out, or when a whole chunk was
        have hhanded' : region.handedOut format (pieces + 1) ≤ (decoder.given after).length := by
          show min (region.handedOut format pieces + extractionChunkBytes)
            (format.decode (region.range.take ((pieces + 1) * extractionChunkBytes))).output.length
              ≤ _
          rcases hdrained.settled with hended | hongoing | hmany
          · rw [hopen'] at hended
            exact nomatch hended
          · rw [hfollows.seen_of_open hopen'] at hongoing
            rw [hnext, hongoing]
            exact Nat.min_le_right _ _
          · omega
        rw [← hnext] at hfollows
        have hrest := ih (remaining - extractionChunkBytes) (by omega) hfollows hopen'
          (by omega) (by omega) hhanded'
        rw [hnext, ← Nat.add_assoc] at hrest
        exact hrest

theorem range_pos {output : Bytes} (hrange : format.decode region.range = .ended output []) :
    0 < region.member.compressedBytes := by
  rw [← region.range_length]
  apply List.length_pos_iff.2
  intro hnil
  rw [hnil, format.decode_nil] at hrange
  exact nomatch hrange

/-- A valid member is accepted if its size does not allow that the last piece is cut off. -/
theorem validatedMemberChunks_complete (hdeflate : region.member.compressionMethod ≠ 0)
    (valid : region.Valid format)
    (hkept : region.member.expandedBytes <
      region.handedOut format region.earlierPieces + extractionChunkBytes) :
    ∃ chunks, validatedMemberChunks decoder region = .ok chunks := by
  obtain ⟨output, hrange, hsize, hsum⟩ := valid
  have hnonempty := range_pos hrange
  obtain ⟨hfresh, _⟩ := decoder.start_fresh
  have hstart : Follows decoder decoder.start { expanded := 0, crc32 := 0, chunks := [] }
      (region.range.take (0 * extractionChunkBytes)) := by
    rw [Nat.zero_mul]
    exact Follows.start decoder
  obtain ⟨after, passed, hrun, htail, hend⟩ := inflateRange_runs hstart hfresh
    (by rw [Nat.zero_mul, Nat.sub_zero]) (by rw [Nat.zero_mul]; exact hnonempty) (Nat.zero_le _) hrange hsize
  rw [Nat.zero_mul, Nat.add_zero] at hrun
  have follows := inflateRange_follows (Follows.start decoder : Follows decoder _ _
    (region.range.take 0)) rfl rfl (Nat.zero_le _) hrun
  have heof : decoder.eof after = true := by
    rcases hend with heof | hmany
    · exact heof
    · -- so much cannot have been handed out
      cases heof : decoder.eof after with
      | true => rfl
      | false =>
          have hwithin := follows.within
          rw [follows.seen_of_open heof, hrange] at hwithin
          have hlength : (decoder.given after).length ≤ output.length := hwithin.length_le
          omega
  have hgiven : decoder.given after = output := by
    rcases follows.reads with ⟨hopen, _⟩ | ⟨_, hseen, hdecode⟩
    · rw [hopen] at heof
      exact nomatch heof
    · have hunused := (follows.all_read (List.append_nil _) hrange heof).2
      rw [hunused, List.append_nil] at hseen
      rw [hseen, hrange] at hdecode
      exact (Decoded.ended.inj hdecode).1.symm
  refine ⟨passed.chunks, (validatedMemberChunks_ok hdeflate).2 ⟨after, passed, hrun, ⟨heof,
    (follows.all_read (List.append_nil _) hrange heof).2, htail⟩, ?_, ?_, rfl⟩⟩
  · rw [follows.size, hgiven, hsize]
  · rw [follows.sum, hgiven, hsum]

/-- The first call on a piece. -/
theorem drain_call {state after : decoder.State} {passed passed' : Passed} {pending : Bytes}
    (hpending : pending ≠ [])
    (h : drain decoder region state pending passed = .ok (after, passed')) :
    ∃ output next passed₁,
      decoder.decompress state pending (outputCap region passed) = some (output, next) ∧
      passOn region.member region.maximumFileBytes passed output = .ok passed₁ ∧
      drain decoder region next (decoder.unconsumedTail next) passed₁ = .ok (after, passed') := by
  rw [drain, dif_neg hpending] at h
  split at h
  · cases h
  · rename_i output next hcall
    split at h
    · cases h
    · rename_i passed₁ hpass
      split at h
      · cases h
      · exact ⟨output, next, passed₁, hcall, hpass, h⟩

end Following

/-! ## What is valid is rejected, if the end is held back -/

section Eager

variable {format : StreamFormat} {region : Region}

/-- The eager decompressor makes one call of each piece of a valid range. -/
theorem eager_drain {state after : EagerState format} {passed passed' : Passed}
    {fed pending rest output : Bytes} (follows : Follows (eager format) state passed fed)
    (hopen : state.eof = false) (hfed : fed ++ pending ++ rest = region.range)
    (hpending : pending ≠ []) (hrange : format.decode region.range = .ended output [])
    (hsize : output.length = region.member.expandedBytes)
    (h : drain (eager format) region state pending passed = .ok (after, passed')) :
    after.given.length = min (state.given.length + extractionChunkBytes)
        (format.decode (fed ++ pending)).output.length ∧
      (after.eof = true → after.given.length < state.given.length + extractionChunkBytes) := by
  have hseen : state.seen = fed := follows.seen_of_open hopen
  have hlen : passed.expanded = state.given.length := follows.size
  rw [← hfed] at hrange
  obtain ⟨hvalid, hinitial, hend⟩ := format.before_end hrange
  have hgiven := state.given_prefix hopen (by rw [hseen]; exact hvalid)
  rw [hseen] at hgiven
  have hbound := hinitial.length_le
  have hbelow := hgiven.length_le
  rw [hsize] at hbound
  obtain ⟨piece, next, passed₁, hcall, _, hrest⟩ := drain_call hpending h
  change state.decompress pending (outputCap region passed) = some (piece, next) at hcall
  have hcap : outputCap region passed =
      min extractionChunkBytes (region.member.expandedBytes - state.given.length + 1) := by
    unfold outputCap
    rw [hlen]
  -- the decompressor consumes the whole piece in one call, whatever the cap holds back
  cases hdecode : format.decode (fed ++ pending) with
  | invalid => exact absurd hdecode hvalid
  | ongoing all =>
      rw [hdecode] at hbound hbelow
      change all.length ≤ _ at hbound
      change state.given.length ≤ all.length at hbelow
      rw [← hseen] at hdecode
      rw [state.decompress_ongoing hopen hdecode] at hcall
      obtain ⟨rfl, rfl⟩ := Prod.mk.inj (Option.some.inj hcall)
      have hstop : after = state.onTheWay hopen hdecode (outputCap region passed) := by
        have hnil := (drain_nil _ passed₁).symm.trans hrest
        exact (Prod.mk.inj (Except.ok.inj hnil)).1.symm
      rw [hstop]
      refine ⟨?_, fun heof => nomatch heof⟩
      show (state.given ++ state.nextOutput all (outputCap region passed)).length =
        min _ all.length
      unfold EagerState.nextOutput
      rw [List.length_append, List.length_take, List.length_drop, hcap]
      omega
  | ended all trailing =>
      obtain ⟨_, rfl, _⟩ := hend _ _ hdecode
      rw [hdecode] at hbound hbelow
      change all.length ≤ _ at hbound
      change state.given.length ≤ all.length at hbelow
      rw [← hseen] at hdecode
      rw [state.decompress_ended hopen hdecode] at hcall
      obtain ⟨rfl, rfl⟩ := Prod.mk.inj (Option.some.inj hcall)
      have hstop : after = state.atTheEnd hopen hdecode (outputCap region passed) := by
        have htail : (eager format).unconsumedTail
            (state.atTheEnd hopen hdecode (outputCap region passed)) = [] := ite_self []
        rw [htail] at hrest
        have hnil := (drain_nil _ passed₁).symm.trans hrest
        exact (Prod.mk.inj (Except.ok.inj hnil)).1.symm
      rw [hstop]
      have hlength : (state.nextOutput all (outputCap region passed)).length =
          min (outputCap region passed) (all.length - state.given.length) := by
        unfold EagerState.nextOutput
        rw [List.length_take, List.length_drop]
      refine ⟨?_, ?_⟩
      · show (state.given ++ state.nextOutput all (outputCap region passed)).length =
          min _ all.length
        rw [List.length_append, hlength, hcap]
        omega
      · intro heof
        have hshort := of_decide_eq_true heof
        show (state.given ++ state.nextOutput all (outputCap region passed)).length < _
        rw [List.length_append]
        omega

/-- The eager decompressor has handed out exactly what was due, and is cut off at the last piece. -/
theorem inflateRange_eager {state after : EagerState format} {passed passed' : Passed}
    {pieces remaining : Nat} {output : Bytes}
    (follows : Follows (eager format) state passed
      (region.range.take (pieces * extractionChunkBytes)))
    (hopen : state.eof = false)
    (hremaining : remaining = region.member.compressedBytes - pieces * extractionChunkBytes)
    (hbefore : pieces * extractionChunkBytes < region.member.compressedBytes)
    (hhanded : state.given.length = region.handedOut format pieces)
    (hrange : format.decode region.range = .ended output [])
    (hsize : output.length = region.member.expandedBytes)
    (hcut : region.handedOut format region.earlierPieces + extractionChunkBytes ≤
      region.member.expandedBytes)
    (h : inflateRange (eager format) region state
      (region.member.dataOffset + pieces * extractionChunkBytes) remaining passed =
        .ok (after, passed')) : after.eof = false := by
  -- as for the run lemma; every piece but the last leaves the stream open
  induction remaining using Nat.strong_induction_on generalizing state passed pieces with
  | _ remaining ih =>
      have hchunk : 0 < extractionChunkBytes := by decide
      have hnext : (pieces + 1) * extractionChunkBytes =
          pieces * extractionChunkBytes + extractionChunkBytes := by
        rw [Nat.add_mul, Nat.one_mul]
      obtain ⟨chunk, hread, htake, hlength⟩ :=
        readSource_range rfl hremaining (Nat.le_of_lt hbefore)
      have hne : chunk ≠ [] := by
        intro hnil
        rw [hnil, List.length_nil] at hlength
        omega
      have hfed : region.range.take (pieces * extractionChunkBytes) ++ chunk ++
          region.range.drop (pieces * extractionChunkBytes + min remaining extractionChunkBytes) =
            region.range := by
        rw [htake, List.take_append_drop]
      obtain ⟨next, passed₁, hdrain, h⟩ : ∃ (next : EagerState format) (passed₁ : Passed), _ ∧ _ :=
        inflateRange_ok (by omega) hread h
      have hfollows := drain_follows follows hdrain
      obtain ⟨hgiven, heof⟩ := eager_drain follows hopen hfed hne hrange hsize hdrain
      rw [htake] at hfollows hgiven
      by_cases hlast : remaining ≤ extractionChunkBytes
      · have hmin : min remaining extractionChunkBytes = remaining := Nat.min_eq_left hlast
        rw [hmin] at h hgiven
        have hwhole : region.range.take (pieces * extractionChunkBytes + remaining) =
            region.range := List.take_of_length_le (by rw [region.range_length]; omega)
        rw [hwhole, hrange] at hgiven
        change next.given.length = min _ output.length at hgiven
        rw [Nat.sub_self] at h
        have hstop := (inflateRange_zero _ _ passed₁).symm.trans h
        obtain ⟨rfl, _⟩ := Prod.mk.inj (Except.ok.inj hstop)
        rw [earlierPieces_eq hbefore (by omega)] at hcut
        cases hended : next.eof with
        | false => rfl
        | true =>
            have hshort := heof hended
            omega
      · have hmin : min remaining extractionChunkBytes = extractionChunkBytes :=
          Nat.min_eq_right (by omega)
        rw [hmin] at hfollows hfed hgiven h
        have hopen' : next.eof = false := by
          cases hended : next.eof with
          | false => rfl
          | true =>
              have hdone := hfollows.all_read (by rw [List.take_append_drop]) hrange hended
              have hrest := congrArg List.length hdone.1
              rw [List.length_drop, region.range_length, List.length_nil] at hrest
              omega
        rw [← hnext] at hfollows hgiven
        rw [Nat.add_assoc, ← hnext] at h
        exact ih (remaining - extractionChunkBytes) (by omega) hfollows hopen' (by omega)
          (by omega) (by rw [hgiven, hhanded]; rfl) h

theorem eager_rejects (hdeflate : region.member.compressionMethod ≠ 0)
    (valid : region.Valid format)
    (hcut : region.handedOut format region.earlierPieces + extractionChunkBytes ≤
      region.member.expandedBytes) (chunks : List Bytes) :
    validatedMemberChunks (eager format) region ≠ .ok chunks := by
  intro h
  obtain ⟨output, hrange, hsize, _⟩ := valid
  have hnonempty := range_pos hrange
  obtain ⟨after, passed, hrun, ⟨heof, _⟩, _⟩ := (validatedMemberChunks_ok hdeflate).1 h
  have hstart : Follows (eager format) (EagerState.start format)
      { expanded := 0, crc32 := 0, chunks := [] } (region.range.take (0 * extractionChunkBytes)) := by
    rw [Nat.zero_mul]
    exact Follows.start (eager format)
  have hopen := inflateRange_eager hstart rfl (by rw [Nat.zero_mul, Nat.sub_zero])
    (by rw [Nat.zero_mul]; exact hnonempty) rfl hrange hsize hcut
    (by rw [Nat.zero_mul, Nat.add_zero]; exact hrun)
  exact nomatch hopen.symm.trans heof

end Eager

/-! ## When the member is exact -/

/-- The stream of a compressed member is exact for every decompressor if and only if the member is
not a valid one or is too small for the call on its last piece to be cut off. -/
theorem exact_iff (format : StreamFormat) (region : Region)
    (hdeflate : region.member.compressionMethod ≠ 0) :
    (∀ decoder : Decompressor format, Exact decoder region) ↔
      (region.Valid format → region.member.expandedBytes <
        region.handedOut format region.earlierPieces + extractionChunkBytes) := by
  constructor
  · intro hexact valid
    by_contra hlarge
    obtain ⟨chunks, haccepted⟩ := (hexact (eager format)).accepts.2 valid
    exact eager_rejects hdeflate valid (by omega) chunks haccepted
  · intro hsmall decoder
    constructor
    · constructor
      · rintro ⟨chunks, haccepted⟩
        exact (validatedMemberChunks_sound hdeflate haccepted).1
      · intro valid
        exact validatedMemberChunks_complete hdeflate valid (hsmall valid)
    · intro chunks haccepted
      exact (validatedMemberChunks_sound hdeflate haccepted).2

/-! ## A member that is rejected -/

/-- A stored block of 572 zeros, then a compressed block of 64965 more of them. -/
def zerosCode : Bytes :=
  [0, 60, 2, 195, 253] ++ List.replicate 572 0 ++
    ([237, 193, 1, 13, 0, 0, 0, 194, 160, 247, 79, 109, 15, 7, 20] ++ List.replicate 62 0 ++
      [112, 101])

/-- How many zeros the first bytes of it decode to. -/
def zerosAvailable (read : Nat) : Nat :=
  if read ≤ 577 then read - 5
  else if read < 592 then 572
  else if read < 655 then 832 + 1032 * (read - 592)
  else if read < 656 then 65332
  else 65537

theorem zerosCode_length : zerosCode.length = 656 := by
  unfold zerosCode
  simp only [List.length_append, List.length_replicate, List.length_cons, List.length_nil]

def zerosFormat : StreamFormat :=
  singleStream zerosCode (List.replicate 65537 0) zerosAvailable (List.cons_ne_nil _ _) rfl (by
    intro m n hle
    unfold zerosAvailable
    split_ifs <;> omega)

/-- The member that declares just these bytes, their number and their checksum. -/
def zerosRegion : Region where
  source := zerosCode
  member :=
    { compressionMethod := 8
      crc32 := crc32 (List.replicate 65537 0) 0
      compressedBytes := 656
      expandedBytes := 65537
      dataOffset := 0 }
  maximumFileBytes := 25 * 1024 * 1024
  inside := Nat.le_of_eq zerosCode_length.symm
  small := by decide

theorem zerosRegion_valid : zerosRegion.Valid zerosFormat := by
  refine ⟨List.replicate 65537 0, ?_, List.length_replicate, rfl⟩
  have hrange : zerosRegion.range = zerosCode :=
    List.take_of_length_le (Nat.le_of_eq zerosCode_length)
  rw [hrange]
  exact singleStream_code _ _ _ _ _ _

theorem exact_iff_zeros :
    (∀ decoder : Decompressor zerosFormat, Exact decoder zerosRegion) ↔
      (zerosRegion.Valid zerosFormat → zerosRegion.member.expandedBytes <
        zerosRegion.handedOut zerosFormat zerosRegion.earlierPieces + extractionChunkBytes) :=
  exact_iff zerosFormat zerosRegion (by decide)

/-- The first call reads all 656 bytes and hands out 65536 of the 65537 zeros; there is no second
call. -/
theorem exact_fails :
    zerosRegion.Valid zerosFormat ∧
      zerosRegion.member.expandedBytes ≤ 100 * zerosRegion.member.compressedBytes ∧
      ¬ Exact (eager zerosFormat) zerosRegion := by
  refine ⟨zerosRegion_valid, by decide, ?_⟩
  intro hexact
  obtain ⟨chunks, haccepted⟩ := hexact.accepts.2 zerosRegion_valid
  exact eager_rejects (by decide) zerosRegion_valid (by decide) chunks haccepted

end StaticHostAgent.Zip
