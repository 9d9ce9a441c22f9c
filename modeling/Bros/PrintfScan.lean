import Bros.Printf

/-!
How far `CON_vsprintf` reads its format.

The default arm of the `switch` stores the byte behind a `%` and steps over it, also when
it is the terminator.
-/

namespace Bros
open ByteMemory CStrings Programs

section
variable {ps : List (Directive × BitVec 32)}

theorem Printed.fmt_le {strings : BitVec 32 → CString} {s t : PrintState}
    (h : Printed strings ps s t) : s.fmt ≤ t.fmt := by
  rw [h.fmt]
  exact Nat.le_add_right _ _

theorem Directive.one_le_width (d : Directive) : 1 ≤ d.width := by
  cases d with
  | literal c => exact Nat.le_refl 1
  | _ => exact Nat.le_succ 1

theorem length_le_width (ps : List (Directive × BitVec 32)) :
    ps.length ≤ (ps.map fun p => p.1.width).sum := by
  induction ps with
  | nil => exact Nat.le_refl 0
  | cons p ps ih =>
      have hpos : 1 ≤ p.1.width := p.1.one_le_width
      rw [List.length_cons, List.map_cons, List.sum_cons]
      omega

end

theorem width_directives (text : List Byte) :
    ((directives text).map Directive.width).sum + (formatRest text).length = text.length := by
  fun_induction directives text with
  | case1 => rfl
  | case2 fmt =>
      rw [formatRest.eq_def]
      exact Nat.zero_add _
  | case3 c fmt hnul hc ih =>
      rw [formatRest.eq_def]
      simp only [if_neg hnul, if_pos hc, List.map_cons, List.sum_cons, List.length_cons,
        Directive.width]
      omega
  | case4 c hnul hc =>
      rw [formatRest.eq_def]
      simp only [if_neg hnul, if_neg hc]
      rfl
  | case5 c hnul hc z fmt ih =>
      rw [formatRest.eq_def]
      simp only [if_neg hnul, if_neg hc, List.map_cons, List.sum_cons, List.length_cons,
        width_directiveOf]
      omega

/-- A string without a NUL is left at a lone `%` or not at all. -/
theorem formatRest_cases (text : List Byte) :
    formatRest text = [] ∨ formatRest text = [charByte '%'] ∨
      ∃ beyond, formatRest text = 0#8 :: beyond ∧ 0#8 ∈ text := by
  fun_induction formatRest text with
  | case1 => exact Or.inl rfl
  | case2 fmt => exact Or.inr (Or.inr ⟨fmt, rfl, List.mem_cons_self⟩)
  | case3 c fmt hnul hc ih =>
      refine ih.imp_right (Or.imp_right fun h => ?_)
      obtain ⟨beyond, hrest, hmem⟩ := h
      exact ⟨beyond, hrest, List.mem_cons_of_mem _ hmem⟩
  | case4 c hnul hc => exact Or.inr (Or.inl (by rw [not_not.mp hc]))
  | case5 c hnul hc z fmt ih =>
      refine ih.imp_right (Or.imp_right fun h => ?_)
      obtain ⟨beyond, hrest, hmem⟩ := h
      exact ⟨beyond, hrest, List.mem_cons_of_mem _ (List.mem_cons_of_mem _ hmem)⟩

section
variable (va : VaList)

/-- A call in which the directives of the format are performed goes on with what is left. -/
theorem conVsprintfLoop_run {text : List Byte} {s t : PrintState} (more : List Byte)
    (hrun : ((directives text).forM (performDirective va)).run s = .ok () t) :
    (conVsprintfLoop va (text ++ more)).run s =
      (conVsprintfLoop va (formatRest text ++ more)).run t := by
  rw [conVsprintfLoop_append, run_bind_of_ok hrun]

theorem conVsprintfLoop_stops {text : List Byte} {s t : PrintState} {e : PrintFault}
    (more : List Byte)
    (hrun : ((directives text).forM (performDirective va)).run s = .error e t) :
    (conVsprintfLoop va (text ++ more)).run s = .error e t := by
  rw [conVsprintfLoop_append, run_bind_of_error hrun]

theorem conVsprintfLoop_run_rest {text : List Byte} {s t : PrintState}
    (hrun : ((directives text).forM (performDirective va)).run s = .ok () t) :
    (conVsprintfLoop va text).run s = (conVsprintfLoop va (formatRest text)).run t := by
  have h := conVsprintfLoop_run va [] hrun
  rwa [List.append_nil, List.append_nil] at h

theorem conVsprintfLoop_stops_rest {text : List Byte} {s t : PrintState} {e : PrintFault}
    (hrun : ((directives text).forM (performDirective va)).run s = .error e t) :
    (conVsprintfLoop va text).run s = .error e t := by
  have h := conVsprintfLoop_stops va [] hrun
  rwa [List.append_nil] at h

theorem conVsprintfLoop_percent (s : PrintState) :
    (conVsprintfLoop va [charByte '%']).run s =
      .error .format { s with fmt := s.fmt + 1, steps := s.steps + 1 } := rfl

/-- `fmt` only goes forward. -/
theorem conVsprintfLoop_fmt_le (text : List Byte) (s : PrintState) :
    s.fmt ≤ (finalState ((conVsprintfLoop va text).run s)).fmt := by
  obtain ⟨t, hprinted, hrun⟩ := forM_performDirective va (directives text) s
  have hle := hprinted.fmt_le
  cases hrun with
  | inl hok =>
      rw [conVsprintfLoop_run_rest va hok.2]
      rcases formatRest_cases text with hrest | hrest | ⟨beyond, hrest, -⟩
      · rw [hrest]
        exact hle
      · rw [hrest, conVsprintfLoop_percent]
        exact Nat.le_succ_of_le hle
      · rw [hrest, conVsprintfLoop_nul]
        exact hle
  | inr hfailed =>
      rw [conVsprintfLoop_stops_rest va hfailed.2]
      exact Nat.le_succ_of_le hle

/-- A `%` at the end takes the terminator with it. -/
theorem conVsprintfLoop_lone (beyond : List Byte) (s : PrintState) :
    s.fmt + 2 ≤
      (finalState ((conVsprintfLoop va (charByte '%' :: 0#8 :: beyond)).run s)).fmt := by
  have hother : ¬ Negates (.other 0#8, va.words s.args) := fun h => by cases h.1
  obtain ⟨t, hprinted, -, hrun⟩ := performDirective_run va hother
  have hloop : conVsprintfLoop va (charByte '%' :: 0#8 :: beyond) = (do
      performDirective va (.other 0#8)
      conVsprintfLoop va beyond) := conVsprintfLoop_append va [charByte '%', 0#8] beyond
  rw [hloop, run_bind_of_ok hrun]
  have hfmt : t.fmt = s.fmt + 2 := hprinted.fmt
  exact hfmt ▸ conVsprintfLoop_fmt_le va beyond t

end

/-- The loop ends, and neither `fmt` nor the number of its rounds goes past the length of the
format. -/
structure ScansFormat (fmt : CString) (r : EStateM.Result PrintFault PrintState Nat) :
    Prop where
  ends : ∃ n t, r = .ok n t
  reads : (finalState r).fmt ≤ fmt.bytes.length
  steps : (finalState r).steps ≤ fmt.bytes.length

section
variable (va : VaList) (fmt : CString) (beyond : List Byte) (buf : Mem)

theorem conVsprintf_of_error {va : VaList} {text : List Byte} {s t : PrintState}
    {e : PrintFault} (h : (conVsprintfLoop va text).run s = .error e t) :
    (conVsprintf va text).run s = .error e t := by
  rw [conVsprintf, run_bind_of_error h]

theorem conVsprintf_fmt (text : List Byte) (s : PrintState) :
    (finalState ((conVsprintf va text).run s)).fmt =
      (finalState ((conVsprintfLoop va text).run s)).fmt := by
  cases h : (conVsprintfLoop va text).run s with
  | ok u t => rw [conVsprintf_of_ok h, finalState, finalState]
  | error e t =>
      rw [conVsprintf_of_error h]
      rfl

/-- The directives of the format are within it, and there are no more than its bytes. -/
theorem formatArgs_bounds :
    ((formatArgs va fmt).map fun p => p.1.width).sum ≤ fmt.bytes.length ∧
      (formatArgs va fmt).length ≤ fmt.bytes.length := by
  have hwidth := width_directives fmt.bytes
  have hlength := length_le_width (formatArgs va fmt)
  rw [formatArgs, map_withArgs Directive.width] at hlength ⊢
  omega

/-- The format is read up to its terminator exactly when it does not end in the middle of a
directive and `itoa` has a result for every argument. -/
theorem conVsprintf_scans_iff :
    ScansFormat fmt ((conVsprintf va (fmt.bytes ++ 0#8 :: beyond)).run (printStart buf)) ↔
      Complete fmt ∧ ∀ p ∈ formatArgs va fmt, ¬ Negates p := by
  obtain ⟨t, hprinted, hrun⟩ := forM_performDirective va (directives fmt.bytes) (printStart buf)
  obtain ⟨hwidths, hlengths⟩ := formatArgs_bounds va fmt
  have hfmt := hprinted.fmt.trans (Nat.zero_add _)
  have hsteps := hprinted.steps.trans (Nat.zero_add _)
  cases hrun with
  | inl hok =>
      have hloop := conVsprintfLoop_run va (0#8 :: beyond) hok.2
      have hdefined : ∀ p ∈ formatArgs va fmt, ¬ Negates p := hok.1
      rw [performed_eq_self hok.1] at hfmt hsteps
      rw [and_iff_left hdefined]
      rcases formatRest_cases fmt.bytes with hrest | hrest | ⟨-, -, hnul⟩
      · refine iff_of_true ?_ hrest
        rw [hrest, List.nil_append, conVsprintfLoop_nul] at hloop
        rw [conVsprintf_of_ok hloop]
        exact ⟨⟨_, _, rfl⟩, hfmt ▸ hwidths, hsteps ▸ hlengths⟩
      · refine iff_of_false (fun hscans => ?_) ?_
        · have hwidth := width_directives fmt.bytes
          have hread := hscans.reads
          rw [conVsprintf_fmt, hloop, hrest] at hread
          have hover := conVsprintfLoop_lone va beyond t
          rw [hrest, List.length_singleton] at hwidth
          rw [map_withArgs Directive.width] at hfmt
          have hover' := hover.trans hread
          omega
        · rw [Complete, hrest]
          exact List.cons_ne_nil _ _
      · exact absurd hnul fmt.noNul
  | inr hfailed =>
      obtain ⟨⟨p, hp, hneg⟩, hrun⟩ := hfailed
      refine iff_of_false (fun hscans => ?_) fun h => h.2 p hp hneg
      obtain ⟨n, t', hends⟩ := hscans.ends
      rw [conVsprintf_of_error (conVsprintfLoop_stops va (0#8 :: beyond) hrun)] at hends
      cases hends

end

/-- The format is a lone `%`, and nothing can be read behind its terminator. -/
theorem lone_percent_overread :
    ¬ ScansFormat ⟨cBytes "%", by decide⟩
      ((conVsprintf { words := fun _ => 0#32, strings := fun _ => ⟨[], List.not_mem_nil⟩ }
        (cBytes "%" ++ [0#8])).run (printStart fun _ => 0#8)) := by
  intro h
  have hreads := h.reads
  revert hreads
  decide +kernel

end Bros
