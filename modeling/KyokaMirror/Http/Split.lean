import KyokaMirror.Http.Download
import KyokaMirror.Http.Reference

set_option autoImplicit false

namespace KyokaMirror.Http

open Users

/-- The successful reads of a body. -/
structure IsCut (reads : List (List UInt8)) (body : List UInt8) : Prop where
  sizes : ∀ bytes ∈ reads, 1 ≤ bytes.length ∧ bytes.length ≤ 1024
  joined : reads.flatten = body

theorem parse_single (buffer : Memory) (body : List UInt8) (page : Page) (closed : Closed body) :
    parse buffer [body] page = storeCells page (cells body) :=
  scanRead_closed (holds_fillRead buffer body) closed page

theorem scanRead_unseen {buffer : Memory} {bytesRead : Nat}
    (unseen : ∀ index < bytesRead, keyword buffer index tag ≠ true) (page : Page) :
    scanRead buffer bytesRead page = page := by
  have still : ∀ indices : List Nat, (∀ index ∈ indices, index < bytesRead) → ∀ s : CellScan,
      indices.foldl (cellBody buffer) s = s := by
    intro indices
    induction indices with
    | nil => intro _ s; rfl
    | cons index rest ih =>
        intro inside s
        rw [List.foldl_cons, cellBody, if_neg (unseen index (inside index List.mem_cons_self))]
        exact ih (fun k member => inside k (List.mem_cons_of_mem _ member)) s
  rw [scanRead, still _ fun index member => List.mem_range.mp member]

theorem scanRead_quiet {buffer : Memory} {bytes : List UInt8} (holds : Holds buffer bytes)
    (quiet : charLt ∉ bytes) (page : Page) : scanRead buffer bytes.length page = page := by
  apply scanRead_unseen
  intro index inside seen
  have first : buffer index = charLt := keyword_apply seen 0 (by decide)
  rw [holds index inside] at first
  exact quiet (first ▸ List.getElem_mem inside)

theorem parse_quiet (reads : List (List UInt8)) :
    ∀ (buffer : Memory) (page : Page), charLt ∉ reads.flatten → parse buffer reads page = page := by
  induction reads with
  | nil => intro buffer page _; rfl
  | cons bytes rest ih =>
      intro buffer page quiet
      rw [List.flatten_cons, List.mem_append, not_or] at quiet
      rw [parse, scanRead_quiet (holds_fillRead buffer bytes) quiet.1]
      exact ih _ page quiet.2

/-- A buffer that makes a lone `<` at its start a cell with the byte `x`. -/
def lure (x : UInt8) : Memory := Function.update (literal " td> <") 4 x

/-- What one-byte reads leave of it. -/
def Lured (buffer : Memory) (x : UInt8) : Prop := ∀ a, a ≠ 0 → buffer a = lure x a

theorem Lured.fill {buffer : Memory} {x : UInt8} (lured : Lured buffer x) (c : UInt8) :
    Lured (fillRead buffer [c]) x ∧ fillRead buffer [c] 0 = c := by
  refine ⟨?_, rfl⟩
  intro a behind
  rw [fillRead, List.getElem?_eq_none (by simp; omega), Option.getD_none, lured a behind]

theorem scanRead_lured {buffer : Memory} {x : UInt8} (lured : Lured buffer x)
    (other : x ≠ charLt) (first : buffer 0 = charLt) (page : Page) :
    (scanRead buffer 1 page).userDate (fieldAddress 0 .name 0) = x := by
  have seen : keyword buffer 0 tag = true := by
    apply keyword_of_prefix (List.prefix_refl tag)
    intro k inside
    have cases : k = 0 ∨ k = 1 ∨ k = 2 ∨ k = 3 := by
      have size : k < 4 := inside
      omega
    rcases cases with rfl | rfl | rfl | rfl
    · exact first
    · exact lured 1 (by decide)
    · exact lured 2 (by decide)
    · exact lured 3 (by decide)
  have byte : buffer 4 = x := lured 4 (by decide)
  have found : cellLoop buffer 0 252 4 [] = (5, [x]) := by
    apply cellLoop_run buffer 0 [x] 252 4 [] (by simp) (by simp)
    · intro k inside
      obtain rfl : k = 0 := by simpa using inside
      exact ⟨byte, other⟩
    · exact lured 5 (by decide)
  show (cellBody buffer ⟨1, 0, page⟩ 0).page.userDate (fieldAddress 0 .name 0) = x
  rw [cellBody, if_pos seen, byte, if_pos other, found]
  simp only [storeCell, storeColumn, store, columnField]
  rw [Library.Copy.copy_inside _ _ _ _ _ _ (Nat.le_refl _) (Nat.lt_add_of_pos_right (by decide)),
    Nat.sub_self]
  rfl

theorem parse_singles_lured {x : UInt8} (other : x ≠ charLt) (bytes : List UInt8) :
    ∀ (buffer : Memory) (page : Page), Lured buffer x →
      charLt ∈ bytes ∨ page.userDate (fieldAddress 0 .name 0) = x →
      (parse buffer (bytes.map fun c => [c]) page).userDate (fieldAddress 0 .name 0) = x := by
  induction bytes with
  | nil =>
      intro buffer page _ stored
      exact stored.resolve_left List.not_mem_nil
  | cons c rest ih =>
      intro buffer page lured stored
      obtain ⟨next, first⟩ := lured.fill c
      rw [List.map_cons, parse]
      apply ih _ _ next
      by_cases same : c = charLt
      · exact .inr (scanRead_lured next other (first.trans same) page)
      · have quiet : charLt ∉ [c] := by
          rw [List.mem_singleton]
          exact Ne.symm same
        rw [scanRead_quiet (holds_fillRead buffer [c]) quiet]
        exact stored.imp_left fun member => (List.mem_cons.mp member).resolve_left (Ne.symm same)

theorem isCut_singles (body : List UInt8) : IsCut (body.map fun c => [c]) body where
  sizes := by
    intro bytes member
    obtain ⟨c, _, rfl⟩ := List.mem_map.mp member
    exact ⟨Nat.le_refl 1, Nat.le_of_ble_eq_true rfl⟩
  joined := by
    induction body with
    | nil => rfl
    | cons c rest ih => rw [List.map_cons, List.flatten_cons, ih, List.singleton_append]

/-- A body of five bytes hides the byte in which two lures differ. -/
theorem fillRead_lure {body : List UInt8} (long : 5 ≤ body.length) (x y : UInt8) :
    fillRead (lure x) body = fillRead (lure y) body := by
  funext a
  rw [fillRead, fillRead]
  by_cases inside : a < body.length
  · rw [List.getElem?_eq_getElem inside, Option.getD_some, Option.getD_some]
  · have behind : a ≠ 4 := by omega
    rw [lure, lure, Function.update_of_ne behind, Function.update_of_ne behind]

/-- A shorter body that does not begin the tag makes no cell with the lure. -/
theorem parse_short {body : List UInt8} (short : body.length ≤ 4) (other : ¬ body <+: tag)
    (page : Page) : parse (lure 120) [body] page = page := by
  have byte : fillRead (lure 120) body 4 = 120 := by
    rw [fillRead, List.getElem?_eq_none short, Option.getD_none]
    rfl
  show scanRead (fillRead (lure 120) body) body.length page = page
  apply scanRead_unseen
  intro index inside seen
  have cases : index = 0 ∨ index = 1 ∨ index = 2 ∨ index = 3 := by omega
  rcases cases with rfl | rfl | rfl | rfl
  · have same : ∀ k, (within : k < body.length) →
        fillRead (lure 120) body (0 + k) = body[k] := by
      intro k within
      rw [Nat.zero_add]
      exact holds_fillRead (lure 120) body k within
    rcases keyword_prefix_or seen same with whole | start
    · exact other (whole.eq_of_length_le short ▸ List.prefix_refl tag)
    · exact other start
  -- A later tag would need the lured byte as one of its own.
  · exact absurd (byte.symm.trans (keyword_apply seen 3 (by decide))) (by decide)
  · exact absurd (byte.symm.trans (keyword_apply seen 2 (by decide))) (by decide)
  · exact absurd (byte.symm.trans (keyword_apply seen 1 (by decide))) (by decide)

/-- A beginning of the tag becomes a cell in one read only. -/
theorem parse_tag_start :
    ∀ body ∈ [ascii "<t", ascii "<td", tag],
      (parse (Function.update (lure 120) 1 0) [body] ⟨fun _ => 0, fun _ => 0⟩).userDate
          (fieldAddress 0 .name 0) = 120 ∧
        (parse (Function.update (lure 120) 1 0) (body.map fun c => [c])
          ⟨fun _ => 0, fun _ => 0⟩).userDate (fieldAddress 0 .name 0) = 0 := by
  decide +kernel

theorem prefix_tag_cases {body : List UInt8} (start : body <+: tag) (size : 2 ≤ body.length) :
    body ∈ [ascii "<t", ascii "<td", tag] := by
  have bound : body.length ≤ 4 := start.length_le
  rw [List.prefix_iff_eq_take.mp start]
  have cases : body.length = 2 ∨ body.length = 3 ∨ body.length = 4 := by omega
  rcases cases with two | three | four
  · rw [two]
    decide
  · rw [three]
    decide
  · rw [four]
    decide

theorem isCut_one {c : UInt8} {reads : List (List UInt8)} (cut : IsCut reads [c]) :
    reads = [[c]] := by
  obtain ⟨sizes, joined⟩ := cut
  cases reads with
  | nil => cases joined
  | cons bytes rest =>
      have size := (sizes bytes List.mem_cons_self).1
      have total := congrArg List.length joined
      rw [List.flatten_cons, List.length_append, List.length_singleton] at total
      have empty : rest.flatten = [] := List.eq_nil_of_length_eq_zero (by omega)
      have done : rest = [] := by
        cases rest with
        | nil => rfl
        | cons other more =>
            have later := (sizes other (List.mem_cons_of_mem _ List.mem_cons_self)).1
            have none := congrArg List.length empty
            rw [List.flatten_cons, List.length_append, List.length_nil] at none
            omega
      rw [List.flatten_cons, empty, List.append_nil] at joined
      rw [joined, done]

/-- Split-invariance over all cuts. -/
theorem all_cuts_iff (body : List UInt8) :
    (∀ buffer page reads, IsCut reads body →
      parse buffer reads page = parse buffer [body] page) ↔
      charLt ∉ body ∨ body.length ≤ 1 := by
  constructor
  · intro same
    by_contra bad
    obtain ⟨inside, long⟩ := not_or.mp bad
    rw [not_not] at inside
    have cut := isCut_singles body
    have first := parse_singles_lured (x := 120) (by decide) body (lure 120)
      ⟨fun _ => 0, fun _ => 0⟩ (fun _ _ => rfl) (.inl inside)
    rw [same _ _ _ cut] at first
    by_cases size : 5 ≤ body.length
    · have second := parse_singles_lured (x := 121) (by decide) body (lure 121)
        ⟨fun _ => 0, fun _ => 0⟩ (fun _ _ => rfl) (.inl inside)
      rw [same _ _ _ cut] at second
      simp only [parse, fillRead_lure size 121 120] at first second
      exact absurd (first.symm.trans second) (by decide)
    · by_cases start : body <+: tag
      · obtain ⟨whole, split⟩ := parse_tag_start body (prefix_tag_cases start (by omega))
        rw [same _ _ _ cut, whole] at split
        exact absurd split (by decide)
      · rw [parse_short (by omega) start] at first
        exact absurd first (by decide)
  · intro fine buffer page reads cut
    by_cases quiet : charLt ∉ body
    · rw [parse_quiet reads buffer page (by rw [cut.joined]; exact quiet),
        parse_quiet [body] buffer page (by simpa using quiet)]
    · match body, fine.resolve_left quiet with
      | [], _ => exact absurd List.not_mem_nil quiet
      | [c], _ => rw [isCut_one cut]

/-- The reads in which the parser finds a cell. -/
def withCells (reads : List (List UInt8)) : List (List UInt8) :=
  reads.filter fun bytes => cells bytes ≠ []

theorem withCells_cons_empty {bytes : List UInt8} (empty : cells bytes = [])
    (rest : List (List UInt8)) : withCells (bytes :: rest) = withCells rest :=
  List.filter_cons_of_neg (by simp [empty])

theorem withCells_cons {bytes : List UInt8} (found : cells bytes ≠ [])
    (rest : List (List UInt8)) : withCells (bytes :: rest) = bytes :: withCells rest :=
  List.filter_cons_of_pos (by simp [found])

theorem parse_closed (reads : List (List UInt8)) :
    ∀ (buffer : Memory) (page : Page), (∀ bytes ∈ reads, Closed bytes) →
      parse buffer reads page =
        (withCells reads).foldl (fun page bytes => storeCells page (cells bytes)) page := by
  induction reads with
  | nil => intro buffer page _; rfl
  | cons bytes rest ih =>
      intro buffer page closed
      have here := closed bytes List.mem_cons_self
      rw [parse, scanRead_closed (holds_fillRead buffer bytes) here,
        ih _ _ fun other member => closed other (List.mem_cons_of_mem _ member)]
      by_cases empty : cells bytes = []
      · rw [withCells_cons_empty empty, empty]
        rfl
      · rw [withCells_cons empty, List.foldl_cons]

theorem cells_flatten (reads : List (List UInt8)) (closed : ∀ bytes ∈ reads, Closed bytes) :
    cells reads.flatten = (withCells reads).flatMap cells := by
  induction reads with
  | nil => rfl
  | cons bytes rest ih =>
      rw [List.flatten_cons, cells_append (closed bytes List.mem_cons_self),
        ih fun other member => closed other (List.mem_cons_of_mem _ member)]
      by_cases empty : cells bytes = []
      · rw [withCells_cons_empty empty, empty, List.nil_append]
      · rw [withCells_cons empty, List.flatMap_cons]

/-- Of two or more reads with cells, none holds all of them. -/
theorem cells_lt_all {reads : List (List UInt8)} (several : 2 ≤ reads.length)
    (found : ∀ bytes ∈ reads, cells bytes ≠ []) {bytes : List UInt8} (member : bytes ∈ reads) :
    (cells bytes).length < (reads.flatMap cells).length := by
  obtain ⟨before, after, rfl⟩ := List.append_of_mem member
  have other : before ++ after ≠ [] := by
    intro none
    rw [List.append_eq_nil_iff] at none
    rw [none.1, none.2] at several
    exact absurd several (by simp)
  obtain ⟨witness, elsewhere⟩ := List.exists_mem_of_ne_nil _ other
  have positive : 0 < (cells witness).length := by
    apply List.length_pos_iff.mpr
    apply found
    rcases List.mem_append.mp elsewhere with left | right
    · exact List.mem_append_left _ left
    · exact List.mem_append_right _ (List.mem_cons_of_mem _ right)
  have counted : (cells witness).length ≤ ((before ++ after).flatMap cells).length :=
    (List.sublist_flatten_of_mem (List.mem_map_of_mem elsewhere)).length_le
  simp only [List.flatMap_append, List.flatMap_cons, List.length_append] at counted ⊢
  omega

/-- A field that no read reaches keeps its length. -/
theorem storeReads_lens (reads : List (List UInt8)) (place : Nat) (few : place < 1280)
    (short : ∀ bytes ∈ reads, (cells bytes).length ≤ place) (page : Page) :
    (reads.foldl (fun page bytes => storeCells page (cells bytes)) page).userDateLen place =
      page.userDateLen place := by
  induction reads generalizing page with
  | nil => rfl
  | cons bytes rest ih =>
      have here := short bytes List.mem_cons_self
      rw [List.foldl_cons, ih fun other member => short other (List.mem_cons_of_mem _ member)]
      exact (storeCells_lens (by omega) (cells_ne_nil bytes) page).2 place here

/-- For reads that end outside tags and cells the split shows exactly when the
cells are spread over several reads. -/
theorem clean_cut_iff {body : List UInt8} {reads : List (List UInt8)} (closed : Closed body)
    (few : (cells body).length ≤ 50) (cut : IsCut reads body)
    (clean : ∀ bytes ∈ reads, Closed bytes) :
    (∀ buffer page, parse buffer reads page = parse buffer [body] page) ↔
      (withCells reads).length ≤ 1 := by
  have all : cells body = (withCells reads).flatMap cells := by
    rw [← cut.joined]
    exact cells_flatten reads clean
  constructor
  · intro same
    by_contra several
    have found : ∀ bytes ∈ withCells reads, cells bytes ≠ [] := by
      intro bytes member
      simpa using (List.mem_filter.mp member).2
    have smaller : ∀ bytes ∈ withCells reads, (cells bytes).length < (cells body).length := by
      intro bytes member
      rw [all]
      exact cells_lt_all (by omega) found member
    have nonempty : cells body ≠ [] := by
      obtain ⟨bytes, member⟩ := List.exists_mem_of_length_pos
        (show 0 < (withCells reads).length by omega)
      have := smaller bytes member
      exact List.length_pos_iff.mp (by omega)
    have size := List.length_pos_iff.mpr nonempty
    -- The last cell of the body has its length stored only by the whole parse.
    obtain ⟨last, final⟩ : ∃ last, last + 1 = (cells body).length := ⟨_, Nat.sub_add_cancel size⟩
    have inside : last < (cells body).length := by omega
    let page : Page := ⟨fun _ => 0, fun _ => UInt8.ofNat ((cells body)[last].length - 1) + 1⟩
    have lens := congrArg (fun p => p.userDateLen last) (same (fun _ => 0) page)
    simp only [parse_closed reads _ page clean, parse_single _ _ page closed] at lens
    rw [storeReads_lens (withCells reads) last (by omega)
        (fun bytes member => by have := smaller bytes member; omega),
      (storeCells_lens (by omega) (cells_ne_nil body) page).1 last inside] at lens
    exact absurd lens (by simp [page])
  · intro single buffer page
    rw [parse_closed reads buffer page clean, parse_single buffer body page closed, all]
    match withCells reads, single with
    | [], _ => rfl
    | [bytes], _ => rw [List.flatMap_cons, List.flatMap_nil, List.append_nil]; rfl

/-- A body is parsed alike under all cuts exactly when it has no markup or is
never cut; a closed body, under a cut that respects its tags and cells, exactly
when one read holds all its cells. -/
theorem split_invariance (body : List UInt8) :
    ((∀ buffer page reads, IsCut reads body →
      parse buffer reads page = parse buffer [body] page) ↔
      charLt ∉ body ∨ body.length ≤ 1) ∧
    (Closed body → (cells body).length ≤ 50 →
      ∀ reads, IsCut reads body → (∀ bytes ∈ reads, Closed bytes) →
        ((∀ buffer page, parse buffer reads page = parse buffer [body] page) ↔
          (withCells reads).length ≤ 1)) :=
  ⟨all_cuts_iff body, fun closed few _ cut clean => clean_cut_iff closed few cut clean⟩

/-- A first read without cells does no harm. -/
theorem headline_then_cells :
    ∀ buffer page, parse buffer [ascii "<p>x</p>", ascii "<td>a</td><td>b</td>"] page =
      parse buffer [ascii "<p>x</p><td>a</td><td>b</td>"] page :=
  ((split_invariance (ascii "<p>x</p><td>a</td><td>b</td>")).2 (by decide +kernel)
    (by decide +kernel) [ascii "<p>x</p>", ascii "<td>a</td><td>b</td>"]
    ⟨by decide +kernel, by decide +kernel⟩ (by decide +kernel)).mpr (by decide +kernel)

/-- Two reads of one cell each both write the name of the first user. -/
theorem second_read_overwrites :
    IsCut [ascii "<td>a</td>", ascii "<td>b</td>"] (ascii "<td>a</td><td>b</td>") ∧
      Closed (ascii "<td>a</td><td>b</td>") ∧
      (cells (ascii "<td>a</td><td>b</td>")).length ≤ 50 ∧
      parse (fun _ => 0) [ascii "<td>a</td>", ascii "<td>b</td>"] ⟨fun _ => 0, fun _ => 0⟩ ≠
        parse (fun _ => 0) [ascii "<td>a</td><td>b</td>"] ⟨fun _ => 0, fun _ => 0⟩ := by
  refine ⟨⟨by decide +kernel, by decide +kernel⟩, by decide +kernel, by decide +kernel, ?_⟩
  intro same
  have name := congrArg (fun page => page.userDate (fieldAddress 0 .name 0)) same
  exact absurd name (by decide +kernel)

end KyokaMirror.Http
