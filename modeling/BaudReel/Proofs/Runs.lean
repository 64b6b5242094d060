import BaudReel.Drawn
import Mathlib.Data.List.SplitBy

/-!
# Scanning is cutting

A scanner decides about a cell when it meets the next one, and it takes the colours of a
whole run from its first cell.  Behind every cell it holds the segments of all runs but
the last, and the last one as far as it goes (`Scanner.Holds`); one cell more keeps it
so (`Holds.step`).  At the end of the row these are the segments that come of cutting
the row first (`Segment.lineOf_eq`).
-/

namespace BaudReel

namespace Segment

variable (view : View)

/-- Where the attributes change, a row can be cut. -/
theorem ofRuns_append {front rest : List Cell}
    (hchange : ∀ c ∈ front.getLast?, ∀ d ∈ rest.head?, c.attributes ≠ d.attributes) :
    ofRuns view (front ++ rest) = ofRuns view front ++ ofRuns view rest := by
  have hcut : runs (front ++ rest) = runs front ++ runs rest := by
    apply List.splitBy_append
    intro c hc d hd
    exact beq_eq_false_iff_ne.2 (hchange c hc d hd)
  rw [ofRuns, hcut, List.filterMap_append]
  rfl

/-- Where they do not change, a row is one segment. -/
theorem ofRuns_run {first : Cell} {rest : List Cell}
    (h : ∀ c ∈ rest, c.attributes = first.attributes) :
    ofRuns view (first :: rest) =
      [.of view (String.ofList ((first :: rest).map Grid.glyphOf)) first] := by
  have hequal : ∀ c ∈ first :: rest, c.attributes = first.attributes :=
    List.forall_mem_cons.2 ⟨rfl, h⟩
  have hchain : (first :: rest).IsChain fun c d => (c.attributes == d.attributes) = true := by
    apply List.Pairwise.isChain
    apply List.pairwise_of_forall_mem_list
    intro c hc d hd
    exact beq_iff_eq.2 ((hequal c hc).trans (hequal d hd).symm)
  have hone : runs (first :: rest) = [first :: rest] :=
    List.splitBy_of_isChain (List.cons_ne_nil _ _) hchain
  rw [ofRuns, hone]
  rfl

end Segment

namespace OpenRun

/-- The open run of some cells. -/
def ofCells (first : Cell) (rest : List Cell) : OpenRun :=
  ⟨first.attributes, first, String.ofList ((first :: rest).map Grid.glyphOf)⟩

theorem start_eq (c : Cell) : start c = ofCells c [] := by
  rw [start, String.singleton_eq_ofList]
  rfl

/-- A run takes one more cell at its end. -/
theorem push_ofCells (first : Cell) (rest : List Cell) (c : Cell) :
    (ofCells first rest).push c = ofCells first (rest ++ [c]) := by
  have htext : (String.ofList ((first :: rest).map Grid.glyphOf)).push (Grid.glyphOf c) =
      String.ofList ((first :: (rest ++ [c])).map Grid.glyphOf) := by
    rw [String.push_eq_append, String.singleton_eq_ofList, ← String.ofList_append,
      ← List.cons_append, List.map_append]
    rfl
  exact congrArg (fun text => { ofCells first rest with text := text }) htext

end OpenRun

namespace Scanner

variable {view : View} {s : Scanner} {run : OpenRun} {c : Cell}

theorem step_of_none (h : s.run = none) : s.step view c = { s with run := some (.start c) } := by
  rw [step, h]

/-- A cell with the attributes of the run goes on with it. -/
theorem step_of_same (h : s.run = some run) (hsame : run.attributes = c.attributes) :
    s.step view c = { s with run := some (run.push c) } := by
  rw [step, h]
  exact if_pos hsame

/-- A cell with other attributes closes the run and starts the next one. -/
theorem step_of_change (h : s.run = some run) (hchange : run.attributes ≠ c.attributes) :
    s.step view c = ⟨s.line ++ [run.close view], some (.start c)⟩ := by
  rw [step, h]
  exact if_neg hchange

/-- What a scanner holds behind some cells: nothing at first, and then the segments of
all runs but the last, and of the last one what there is so far. -/
inductive Holds (view : View) : List Cell → Scanner → Prop where
  | nothing : Holds view [] {}
  | run (done : List Cell) (first : Cell) (rest : List Cell)
      (hchange : ∀ c ∈ done.getLast?, c.attributes ≠ first.attributes)
      (hrun : ∀ c ∈ rest, c.attributes = first.attributes) :
      Holds view (done ++ first :: rest)
        ⟨Segment.ofRuns view done, some (.ofCells first rest)⟩

/-- Where the attributes change the runs can be told apart. -/
theorem ofRuns_done {done : List Cell} {first : Cell} {rest : List Cell}
    (hchange : ∀ c ∈ done.getLast?, c.attributes ≠ first.attributes)
    (hrun : ∀ c ∈ rest, c.attributes = first.attributes) :
    Segment.ofRuns view (done ++ first :: rest) =
      Segment.ofRuns view done ++ [(OpenRun.ofCells first rest).close view] := by
  rw [Segment.ofRuns_append view, Segment.ofRuns_run view hrun]
  · rfl
  · intro c hc d hd
    obtain rfl := Option.some.inj hd
    exact hchange c hc

/-- One cell more. -/
theorem Holds.step {cells : List Cell} (h : Holds view cells s) (c : Cell) :
    Holds view (cells ++ [c]) (s.step view c) := by
  cases h with
  | nothing =>
    rw [step_of_none rfl, OpenRun.start_eq]
    exact .run [] c [] (fun _ hd => absurd hd (Option.not_mem_none _)) (List.forall_mem_nil _)
  | run done first rest hchange hrun =>
    by_cases hsame : first.attributes = c.attributes
    · have hlonger : ∀ d ∈ rest ++ [c], d.attributes = first.attributes := by
        intro d hd
        rcases List.mem_append.1 hd with hd | hd
        · exact hrun d hd
        · rw [List.mem_singleton.1 hd, hsame]
      rw [step_of_same rfl hsame, OpenRun.push_ofCells, List.append_assoc]
      exact .run done first (rest ++ [c]) hchange hlonger
    · have hlast : ∀ d ∈ (done ++ first :: rest).getLast?, d.attributes ≠ c.attributes := by
        intro d hd
        have hmem : d ∈ first :: rest := by
          rw [List.getLast?_append_of_ne_nil _ (List.cons_ne_nil _ _)] at hd
          exact List.mem_of_getLast? hd
        rcases List.mem_cons.1 hmem with rfl | hd
        · exact hsame
        · rw [hrun d hd]
          exact hsame
      rw [step_of_change rfl hsame, OpenRun.start_eq, ← ofRuns_done hchange hrun]
      exact .run (done ++ first :: rest) c [] hlast (List.forall_mem_nil _)

/-- The row is over. -/
theorem Holds.finish {cells : List Cell} (h : Holds view cells s) :
    s.finish view = Segment.ofRuns view cells := by
  cases h with
  | nothing => rfl
  | run done first rest hchange hrun =>
    rw [ofRuns_done hchange hrun]
    rfl

end Scanner

/-- **Scanning is cutting.** -/
theorem Segment.lineOf_eq (view : View) (cells : List Cell) :
    lineOf view cells = ofRuns view cells := by
  have hrun : ∀ (scanned : List Cell) (s : Scanner), s.Holds view scanned →
      Scanner.Holds view (scanned ++ cells) (cells.foldl (Scanner.step view) s) := by
    induction cells with
    | nil =>
      intro scanned s h
      rwa [List.append_nil]
    | cons c cells ih =>
      intro scanned s h
      have hrest := ih (scanned ++ [c]) (s.step view c) (h.step c)
      rwa [List.append_assoc] at hrest
  exact (hrun [] {} .nothing).finish

namespace Segment

variable (view : View)

/-- A scanned row can be cut where the attributes change. -/
theorem lineOf_append {front rest : List Cell}
    (hchange : ∀ c ∈ front.getLast?, ∀ d ∈ rest.head?, c.attributes ≠ d.attributes) :
    lineOf view (front ++ rest) = lineOf view front ++ lineOf view rest := by
  rw [lineOf_eq, lineOf_eq, lineOf_eq, ofRuns_append view hchange]

/-- A scanned row is one segment where they do not change. -/
theorem lineOf_run {first : Cell} {rest : List Cell}
    (h : ∀ c ∈ rest, c.attributes = first.attributes) :
    lineOf view (first :: rest) =
      [.of view (String.ofList ((first :: rest).map Grid.glyphOf)) first] := by
  rw [lineOf_eq, ofRuns_run view h]

/-- The segments of a scanned row are those of its runs. -/
theorem exists_run_of_mem_lineOf {view : View} {cells : List Cell} {s : Segment}
    (hs : s ∈ lineOf view cells) :
    ∃ run ∈ runs cells, ∃ first, run.head? = some first ∧
      s = of view (String.ofList (run.map Grid.glyphOf)) first := by
  rw [lineOf_eq] at hs
  obtain ⟨run, hrun, hmade⟩ := List.mem_filterMap.1 hs
  obtain ⟨first, hfirst, rfl⟩ := Option.map_eq_some_iff.1 hmade
  exact ⟨run, hrun, first, hfirst, rfl⟩

end Segment

end BaudReel
