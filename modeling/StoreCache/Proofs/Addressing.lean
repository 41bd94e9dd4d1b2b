import Mathlib.Data.List.Forall2
import StoreCache.Http.Client

/-!
# Where requests go

A client puts the name of a store into the path of a URL. Names are any texts at all, and a path has
signs of its own, so a name is escaped; what is hoped for is that the segment it becomes gives it
back, that two stores are never asked for at one URL, and that a request stays below the endpoint.

**The names that this is true of are the plain ones**: neither one dot nor two, and without tabs and
line ends (`Path.IsPlain`). What becomes of the others is what the two exceptions of appending make
of them (`Path.form`): one dot or two are skipped, and tabs and line ends are left out first. So a
store called `or\tders` is asked for where `orders` is, and one called `.` where no store is.

The endpoint is never left, whatever the name (`addressing_of_client`). The one segment that an odd
name takes back is the one that says what is asked for.
-/

namespace StoreCache

namespace Url

/-! ### Segments and what they stand for -/

/-- The bytes of a text. -/
def utf8 (text : String) : List UInt8 := text.toList.flatMap String.utf8EncodeChar

/-- Undoing the escapes of a segment gives a text. -/
def Decodes (segment text : String) : Prop := decode segment.toList = utf8 text

theorem eq_of_utf8_eq {s t : List Char}
    (h : s.flatMap String.utf8EncodeChar = t.flatMap String.utf8EncodeChar) : s = t := by
  have hbytes : s.utf8Encode = t.utf8Encode := congrArg List.toByteArray h
  have htext : String.ofList s = String.ofList t := String.toByteArray_inj.1 hbytes
  exact String.ofList_injective htext

/-- Different texts are written differently. -/
theorem encode_injective {keeps : Char → Bool} (h : keeps '%' = false) :
    Function.Injective (encode keeps) := by
  intro s t hst
  have hdecoded := congrArg decode hst
  rw [decode_encode h, decode_encode h] at hdecoded
  exact eq_of_utf8_eq hdecoded

/-- A name as a segment. -/
def segment (s : List Char) : String := String.ofList (encode isSegmentChar s)

theorem decode_segment (s : List Char) :
    decode (segment s).toList = s.flatMap String.utf8EncodeChar := by
  rw [segment, String.toList_ofList, decode_encode rfl]

theorem segment_injective : Function.Injective segment := by
  intro s t h
  have hencoded := String.ofList_injective h
  have hkeeps : isSegmentChar '%' = false := rfl
  exact encode_injective hkeeps hencoded

/-- A segment that gives back one dot or two is the dots themselves. -/
theorem not_dot_segment {s : List Char} (hdot : s ≠ ['.']) (hdoubleDot : s ≠ ['.', '.']) :
    isDot (segment s).toList = false ∧ isDoubleDot (segment s).toList = false := by
  have hone : ∀ x ∈ [".", "%2e", "%2E"], decode x.toList = ['.'].flatMap String.utf8EncodeChar := by
    decide
  have htwo : ∀ x ∈ ["..", ".%2e", ".%2E", "%2e.", "%2E.", "%2e%2e", "%2e%2E", "%2E%2e", "%2E%2E"],
      decode x.toList = ['.', '.'].flatMap String.utf8EncodeChar := by
    decide
  simp only [isDot, isDoubleDot, List.contains_eq_mem, decide_eq_false_iff_not, String.ofList_toList]
  refine ⟨fun hmem ↦ hdot (eq_of_utf8_eq ?_), fun hmem ↦ hdoubleDot (eq_of_utf8_eq ?_)⟩
  · rw [← decode_segment, hone _ hmem]
  · rw [← decode_segment, htwo _ hmem]

namespace Path

/-! ### What becomes of a name -/

/-- What a name comes to when it is appended to a path. -/
inductive Form
  /-- Nothing is appended. -/
  | skipped
  /-- The segment before it is taken back, and an empty one put in its place. -/
  | up
  /-- A segment that stands for a text. -/
  | data (s : List Char)
  deriving DecidableEq

/-- The form of a name: one dot or two are skipped; tabs and line ends are left out, and if then one
dot is left, that stands for nothing, and two for the place above. -/
def form (name : String) : Form :=
  if name = "." ∨ name = ".." then .skipped
  else
    let s := name.toList.filter (!isDropped ·)
    if s = ['.', '.'] then .up else if s = ['.'] then .data [] else .data s

theorem append_eq (path : Path) (name : String) :
    path.append name = match form name with
      | .skipped => path
      | .up => path.parent ++ [""]
      | .data s => path.push (segment s) := by
  simp only [append, form]
  split
  · rfl
  · split
    · rfl
    · split
      · rfl
      · rfl

/-- A name that appending takes as it is. -/
structure IsPlain (name : String) : Prop where
  not_dot : name ≠ "."
  not_doubleDot : name ≠ ".."
  kept : ∀ c ∈ name.toList, isDropped c = false

/-- **The plain names are those that become segments of their own.** -/
theorem form_eq_data_iff {name : String} : form name = .data name.toList ↔ IsPlain name := by
  constructor
  · intro h
    simp only [form] at h
    split at h
    · cases h
    · rename_i hdots
      have hkept : name.toList.filter (!isDropped ·) = name.toList := by
        split at h
        · cases h
        · split at h
          · rename_i hone
            rw [← Form.data.inj h] at hone
            cases hone
          · exact Form.data.inj h
      refine ⟨fun h ↦ hdots (Or.inl h), fun h ↦ hdots (Or.inr h), fun c hc ↦ ?_⟩
      simpa using List.filter_eq_self.1 hkept c hc
  · rintro ⟨hdot, hdoubleDot, hkept⟩
    have hfilter : name.toList.filter (!isDropped ·) = name.toList :=
      List.filter_eq_self.2 fun c hc ↦ by simp [hkept c hc]
    have hone : name.toList ≠ ['.'] := fun h ↦ hdot (String.toList_injective h)
    have htwo : name.toList ≠ ['.', '.'] := fun h ↦ hdoubleDot (String.toList_injective h)
    simp only [form, hfilter, hdot, hdoubleDot, hone, htwo, or_self, if_false]

/-- What a name stands for is never one dot or two. -/
theorem not_dots_of_form {name : String} {s : List Char} (h : form name = .data s) :
    s ≠ ['.'] ∧ s ≠ ['.', '.'] := by
  simp only [form] at h
  split at h
  · cases h
  · split at h
    · cases h
    · rename_i htwo
      split at h
      · obtain rfl := Form.data.inj h
        exact ⟨nofun, nofun⟩
      · rename_i hone
        obtain rfl := Form.data.inj h
        exact ⟨hone, htwo⟩

/-- A name of the kind that says what is asked for: it is its own segment. -/
structure IsOrdinary (name : String) : Prop where
  form_eq : form name = .data name.toList
  segment_eq : segment name.toList = name
  ne_empty : name ≠ ""
  not_drive : isDrive name = false

theorem append_of_ordinary {name : String} (h : IsOrdinary name) (path : Path) :
    path.append name = path.push name := by
  rw [append_eq, h.form_eq]
  show path.push (segment name.toList) = _
  rw [h.segment_eq]

theorem push_of_ne_root {path : Path} (h : path ≠ root) (x : String) : path.push x = path ++ [x] :=
  if_neg h

end Path

/-! ### Below an endpoint -/

/-- The path of a URL without an empty segment at its end. -/
def stem (u : Url) : Path :=
  if u.path.withoutTrailingSlash = Path.root then [] else u.path.withoutTrailingSlash

theorem push_stem (u : Url) (x : String) : u.path.withoutTrailingSlash.push x = u.stem ++ [x] := by
  rw [Path.push, stem]
  split <;> rfl

/-- Only the path of two empty segments loses both. -/
theorem stem_eq {u : Url} (h : u.path ≠ ["", ""]) :
    u.stem = if u.path.getLast? = some "" then u.path.dropLast else u.path := by
  rw [stem]
  generalize u.path = path at h ⊢
  rcases path with - | ⟨x, - | ⟨y, rest⟩⟩
  · rfl
  · by_cases hx : x = "" <;> simp [Path.withoutTrailingSlash, Path.root, hx]
  · have hlong : 1 < (x :: y :: rest).length := by simp
    by_cases hlast : (x :: y :: rest).getLast? = some ""
    · have hwithout : Path.withoutTrailingSlash (x :: y :: rest) = (x :: y :: rest).dropLast :=
        if_pos ⟨hlong, hlast⟩
      have hdrop : (x :: y :: rest).dropLast ≠ Path.root := fun hdrop ↦ by
        obtain ⟨before, hbefore⟩ := List.getLast?_eq_some_iff.1 hlast
        rw [hbefore, List.dropLast_concat] at hdrop
        rw [hbefore, hdrop] at h
        exact absurd rfl h
      rw [hwithout, if_neg hdrop, if_pos hlast]
    · have hwithout : Path.withoutTrailingSlash (x :: y :: rest) = x :: y :: rest :=
        if_neg fun h ↦ hlast h.2
      have hroot : x :: y :: rest ≠ Path.root := fun hroot ↦ by
        simp [Path.root] at hroot
      rw [hwithout, if_neg hroot, if_neg hlast]

namespace Path

/-- The names behind the name of a store: none, or one that says what is asked for. -/
def AreOrdinary (names : List String) : Prop := names = [] ∨ ∃ x, names = [x] ∧ IsOrdinary x

theorem foldl_append_of_ordinary {path : Path} (h : path ≠ root) {names : List String}
    (hnames : AreOrdinary names) : names.foldl append path = path ++ names := by
  rcases hnames with rfl | ⟨x, rfl, hx⟩
  · exact (List.append_nil path).symm
  · exact (append_of_ordinary hx path).trans (push_of_ne_root h x)

/-- What stands behind the stem of a path when three names are appended: an ordinary one, any name
at all, and no name or an ordinary one. -/
def around (stem : Path) (before : String) (behind : List String) : Form → List String
  | .skipped => before :: behind
  | .up => if stem = [] ∧ behind ≠ [] then behind else "" :: behind
  | .data s => before :: segment s :: behind

end Path

/-- **What a name comes to below an endpoint.** -/
theorem path_below (u : Url) {before : String} (hbefore : Path.IsOrdinary before) (name : String)
    {behind : List String} (hbehind : Path.AreOrdinary behind) :
    (u.below (before :: name :: behind)).path =
      u.stem ++ Path.around u.stem before behind (Path.form name) := by
  have hpath : (u.below (before :: name :: behind)).path =
      behind.foldl Path.append ((u.stem ++ [before]).append name) := by
    rw [← push_stem, ← Path.append_of_ordinary hbefore]
    rfl
  have hroot : ∀ path : Path, path ++ [before] ≠ Path.root := by
    intro path h
    obtain ⟨-, hlast⟩ := List.append_inj' (h.trans (List.nil_append [""]).symm) rfl
    exact hbefore.ne_empty (List.cons.inj hlast).1
  rw [hpath, Path.append_eq]
  rcases Path.form name with - | - | s
  · show behind.foldl Path.append (u.stem ++ [before]) = _
    rw [Path.foldl_append_of_ordinary (hroot u.stem) hbehind, List.append_assoc]
    rfl
  · have hparent : (u.stem ++ [before]).parent = u.stem := by
      rw [Path.parent, List.getLast?_concat, Option.any_some, hbefore.not_drive,
        List.dropLast_concat]
      rfl
    show behind.foldl Path.append ((u.stem ++ [before]).parent ++ [""]) = _
    rw [hparent, Path.around]
    rcases hstem : u.stem with - | ⟨x, rest⟩
    · -- At the root the empty segment makes room for what comes behind it.
      rcases hbehind with rfl | ⟨x, rfl, hx⟩
      · rfl
      · exact Path.append_of_ordinary hx _
    · rw [Path.foldl_append_of_ordinary (by simp [Path.root]) hbehind, List.append_assoc,
        if_neg (by simp)]
      rfl
  · show behind.foldl Path.append ((u.stem ++ [before]).push (segment s)) = _
    have hlong : u.stem ++ [before] ++ [segment s] ≠ Path.root := fun h ↦ by
      have hlength := congrArg List.length h
      simp [Path.root] at hlength
    rw [Path.push_of_ne_root (hroot u.stem), Path.foldl_append_of_ordinary hlong hbehind,
      List.append_assoc, List.append_assoc]
    rfl

namespace Path

variable {stem : Path} {before name : String} {behind : List String}

theorem length_around_le (stem : Path) (before : String) (behind : List String) :
    (around stem before behind .up).length ≤ (before :: behind).length := by
  rw [around]
  split <;> simp

/-- Names come to the same place if they have one form. -/
theorem around_inj (hbefore : IsOrdinary before) {f g : Form} :
    around stem before behind f = around stem before behind g ↔ f = g := by
  have hup : before :: behind ≠ around stem before behind .up := fun h ↦ by
    rw [around] at h
    split at h
    · simpa using congrArg List.length h
    · exact hbefore.ne_empty (List.cons.inj h).1
  -- Only a segment of its own makes the place that deep.
  have hdeep : ∀ s, (around stem before behind .up).length <
      (around stem before behind (.data s)).length := fun s ↦
    Nat.lt_of_le_of_lt (length_around_le stem before behind) (Nat.lt_succ_self _)
  refine ⟨fun h ↦ ?_, fun h ↦ congrArg _ h⟩
  rcases f with - | - | s <;> rcases g with - | - | t
  · rfl
  · exact absurd h hup
  · simpa [around] using congrArg List.length h
  · exact absurd h.symm hup
  · rfl
  · exact absurd (congrArg List.length h) (Nat.ne_of_lt (hdeep t))
  · simpa [around] using congrArg List.length h
  · exact absurd (congrArg List.length h).symm (Nat.ne_of_lt (hdeep s))
  · obtain ⟨-, htail⟩ := List.cons.inj h
    exact congrArg Form.data (segment_injective (List.cons.inj htail).1)

theorem IsOrdinary.decodes (h : IsOrdinary name) : Decodes name name := by
  have hdecode := decode_segment name.toList
  rwa [h.segment_eq] at hdecode

/-- **A segment for each name, standing for it, is what a plain name comes to**, and no other. -/
theorem decodes_around_iff (hbefore : IsOrdinary before) (hbehind : AreOrdinary behind) :
    List.Forall₂ Decodes (around stem before behind (form name)) (before :: name :: behind) ↔
      IsPlain name := by
  constructor
  · intro h
    have hlength := h.length_eq
    rw [← form_eq_data_iff]
    rcases hform : form name with - | - | s <;> rw [hform] at h hlength
    · simp [around] at hlength
    · have hle := length_around_le stem before behind
      rw [hlength] at hle
      exact absurd hle (Nat.not_succ_le_self _)
    · obtain ⟨-, hdecodes, -⟩ := List.forall₂_cons.1 h |>.imp_right List.forall₂_cons.1
      rw [eq_of_utf8_eq ((decode_segment s).symm.trans hdecodes)]
  · intro h
    rw [form_eq_data_iff.2 h]
    refine .cons hbefore.decodes (.cons (decode_segment name.toList) ?_)
    rcases hbehind with rfl | ⟨x, rfl, hx⟩
    · exact .nil
    · exact .cons hx.decodes .nil

theorem IsOrdinary.not_dots (h : IsOrdinary name) :
    isDot name.toList = false ∧ isDoubleDot name.toList = false := by
  obtain ⟨hone, htwo⟩ := not_dots_of_form h.form_eq
  have hdots := not_dot_segment hone htwo
  rwa [h.segment_eq] at hdots

/-- No segment behind the stem is one dot or two. -/
theorem not_dots_around (hbefore : IsOrdinary before) (hbehind : AreOrdinary behind) {x : String}
    (hx : x ∈ around stem before behind (form name)) :
    isDot x.toList = false ∧ isDoubleDot x.toList = false := by
  have hnone : isDot "".toList = false ∧ isDoubleDot "".toList = false := by decide
  have hbehind' : x ∈ behind → isDot x.toList = false ∧ isDoubleDot x.toList = false := by
    rcases hbehind with rfl | ⟨y, rfl, hy⟩
    · exact nofun
    · intro hmem
      rw [List.mem_singleton.1 hmem]
      exact hy.not_dots
  rcases hform : form name with - | - | s <;> rw [hform, around] at hx
  · rcases List.mem_cons.1 hx with rfl | hmem
    · exact hbefore.not_dots
    · exact hbehind' hmem
  · split at hx
    · exact hbehind' hx
    · rcases List.mem_cons.1 hx with rfl | hmem
      · exact hnone
      · exact hbehind' hmem
  · obtain ⟨hone, htwo⟩ := not_dots_of_form hform
    rw [List.mem_cons, List.mem_cons] at hx
    rcases hx with rfl | rfl | hmem
    · exact hbefore.not_dots
    · exact not_dot_segment hone htwo
    · exact hbehind' hmem

end Path

end Url

/-! ### What clients ask for -/

/-- The store that a question is about. -/
def Question.store : Question → String
  | .placement n | .record n _ | .schemas n => n

namespace Http

open Url

/-- **Under which names a strategy asks a question**, in this order: one before the name of the
store, and none or one behind it. -/
def Strategy.places : Strategy → Question → List (String × List String)
  | .thinClient, .placement _ => [("meta_store", ["store_cluster_config"])]
  | .thinClient, .record _ _ => [("meta_store", ["store_properties"])]
  | .thinClient, .schemas _ =>
    [("meta_store", ["store_key_schemas"]), ("meta_store", ["store_value_schemas"])]
  | .router, .placement _ => [("discover_cluster", [])]
  | .router, .record _ _ | .router, .schemas _ => [("request_based_metadata", [])]

theorem Strategy.ordinary_of_mem_places {strategy : Strategy} {q : Question}
    {place : String × List String} (h : place ∈ strategy.places q) :
    Path.IsOrdinary place.1 ∧ Path.AreOrdinary place.2 := by
  have hkey : ∀ k : ThinClient.Key, Path.IsOrdinary "meta_store" ∧ Path.AreOrdinary [k.name] :=
    fun k ↦ by
      refine ⟨⟨by decide, by decide, by decide, by decide⟩, Or.inr ⟨_, rfl, ?_⟩⟩
      rcases k with - | - | - | - <;> exact ⟨by decide, by decide, by decide, by decide⟩
  have hdiscovery : Path.IsOrdinary "discover_cluster" :=
    ⟨by decide, by decide, by decide, by decide⟩
  have hmetadata : Path.IsOrdinary "request_based_metadata" :=
    ⟨by decide, by decide, by decide, by decide⟩
  rcases strategy with - | - <;> rcases q with n | ⟨n, cluster⟩ | n
  · obtain rfl := List.mem_singleton.1 h
    exact hkey .placement
  · obtain rfl := List.mem_singleton.1 h
    exact hkey .record
  · rcases List.mem_pair.1 h with rfl | rfl
    · exact hkey .keySchemas
    · exact hkey .valueSchemas
  · obtain rfl := List.mem_singleton.1 h
    exact ⟨hdiscovery, Or.inl rfl⟩
  · obtain rfl := List.mem_singleton.1 h
    exact ⟨hmetadata, Or.inl rfl⟩
  · obtain rfl := List.mem_singleton.1 h
    exact ⟨hmetadata, Or.inl rfl⟩

/-- The URL is the endpoint's, but for the path and the query. -/
structure SameService (base u : Url) : Prop where
  secure : u.secure = base.secure
  host : u.host = base.host
  port : u.port = base.port

/-- The path under which a client asks for a store. -/
def Client.path (c : Client) (before : String) (behind : List String) (n : String) : Path :=
  (c.base.below (before :: n :: behind)).path

/-- **All that a client asks a service for lies below its endpoint**, under the name of the store
and the names for the question. -/
theorem Client.urls_places (c : Client) (service : Service) (q : Question) :
    c.urls service q ≠ [] ∧ (∀ u ∈ c.urls service q, SameService c.base u) ∧
      (c.urls service q).map Url.path <+:
        (c.strategy.places q).map fun place ↦ c.path place.1 place.2 q.store := by
  obtain ⟨strategy, base⟩ := c
  have hone : ∀ (u : Url) (further : List Path), SameService base u →
      [u] ≠ [] ∧ (∀ v ∈ [u], SameService base v) ∧ [u].map Url.path <+: u.path :: further :=
    fun u further hu ↦ ⟨List.cons_ne_nil _ _, fun v hv ↦ List.mem_singleton.1 hv ▸ hu,
      List.prefix_append [u.path] further⟩
  rcases strategy with - | - <;> rcases q with n | ⟨n, cluster⟩ | n
  · exact hone _ [] ⟨rfl, rfl, rfl⟩
  · exact hone _ [] ⟨rfl, rfl, rfl⟩
  · simp only [Client.urls, Client.schemas, ThinClient.schemas, Inquiry.andThen]
    split
    · -- Without the key schemas nobody asks for the value schemas.
      exact hone _ [_] ⟨rfl, rfl, rfl⟩
    · refine ⟨List.cons_ne_nil _ _, fun u hu ↦ ?_, List.prefix_rfl⟩
      rcases List.mem_cons.1 hu with rfl | hu
      · exact ⟨rfl, rfl, rfl⟩
      · obtain rfl := List.mem_singleton.1 hu
        exact ⟨rfl, rfl, rfl⟩
  · exact hone _ [] ⟨rfl, rfl, rfl⟩
  · exact hone _ [] ⟨rfl, rfl, rfl⟩
  · exact hone _ [] ⟨rfl, rfl, rfl⟩

/-! ### The theorem -/

/-- **Requests go below the endpoint, and plain names have places of their own.** Take any client,
wherever its endpoint is.

* Whatever it asks a service for, it asks at the scheme, the host and the port of its endpoint. To
  answer a question it asks for the places of that question, under the name of the store, from the
  first on.
* Every path begins with the one of the endpoint, less an empty segment at its end (of two empty
  segments alone both go), and behind that no segment is one dot or two.
* What follows is one segment for each of the names, which stands for it, if and only if the name of
  the store is plain.
* Two stores are asked for at one path if and only if their names have the same form.
* Paths of plain names differ if the names do, or what is asked for. -/
theorem addressing_of_client (c : Client) :
    (∀ service q, c.urls service q ≠ [] ∧ (∀ u ∈ c.urls service q, SameService c.base u) ∧
      (c.urls service q).map Url.path <+:
        (c.strategy.places q).map fun place ↦ c.path place.1 place.2 q.store) ∧
    (c.base.path ≠ ["", ""] → c.base.stem =
      if c.base.path.getLast? = some "" then c.base.path.dropLast else c.base.path) ∧
    ∀ q before behind, (before, behind) ∈ c.strategy.places q → ∀ n,
      (∃ segments, c.path before behind n = c.base.stem ++ segments ∧
        (∀ x ∈ segments, isDot x.toList = false ∧ isDoubleDot x.toList = false) ∧
        (List.Forall₂ Decodes segments (before :: n :: behind) ↔ Path.IsPlain n)) ∧
      (∀ m, c.path before behind m = c.path before behind n ↔ Path.form m = Path.form n) ∧
      (Path.IsPlain n → ∀ q' before' behind' m, (before', behind') ∈ c.strategy.places q' →
        Path.IsPlain m → c.path before' behind' m = c.path before behind n →
        m = n ∧ before' = before ∧ behind' = behind) := by
  refine ⟨c.urls_places, stem_eq, fun q before behind hplace n ↦ ?_⟩
  obtain ⟨hbefore, hbehind⟩ := Strategy.ordinary_of_mem_places hplace
  have hpath : ∀ m, c.path before behind m =
      c.base.stem ++ Path.around c.base.stem before behind (Path.form m) := fun m ↦
    path_below c.base hbefore m hbehind
  refine ⟨⟨_, hpath n, fun x ↦ Path.not_dots_around hbefore hbehind,
    Path.decodes_around_iff hbefore hbehind⟩, fun m ↦ ?_, ?_⟩
  · rw [hpath m, hpath n, List.append_cancel_left_eq, Path.around_inj hbefore]
  · intro hn q' before' behind' m hplace' hm hsame
    obtain ⟨hbefore', hbehind'⟩ := Strategy.ordinary_of_mem_places hplace'
    have hpath' : c.path before' behind' m =
        c.base.stem ++ Path.around c.base.stem before' behind' (Path.form m) :=
      path_below c.base hbefore' m hbehind'
    rw [hpath', hpath n, List.append_cancel_left_eq, Path.form_eq_data_iff.2 hm,
      Path.form_eq_data_iff.2 hn] at hsame
    obtain ⟨rfl, htail⟩ := List.cons.inj hsame
    obtain ⟨hsegment, rfl⟩ := List.cons.inj htail
    exact ⟨String.toList_injective (segment_injective hsegment), rfl, rfl⟩

/-- A service behind a path. -/
def behindApi : Client := ⟨.thinClient, ⟨false, .domain "m", some 7, ["api"], none, none⟩⟩

/-- A name with a space has a segment of its own. -/
theorem addressing_behindApi :
    Client.ofSettings? .standard ⟨"http://m:7/api/", 5000⟩ = .ok behindApi ∧
      ∃ segments,
        behindApi.path "meta_store" ["store_properties"] "orders v2" = ["api"] ++ segments ∧
        List.Forall₂ Decodes segments ["meta_store", "orders v2", "store_properties"] := by
  obtain ⟨-, hstem, hpaths⟩ := addressing_of_client behindApi
  obtain ⟨⟨segments, hpath, -, hdecodes⟩, -⟩ :=
    hpaths (.record "orders v2" "east") "meta_store" ["store_properties"] List.mem_cons_self
      "orders v2"
  rw [hstem (by decide)] at hpath
  have hkept : "orders v2".toList.all (fun c ↦ !isDropped c) = true := by decide
  have hplain : Path.IsPlain "orders v2" := ⟨by decide, by decide, by simpa using hkept⟩
  exact ⟨by rfl, segments, hpath, hdecodes.2 hplain⟩

/-- A service without a path of its own. -/
def atRoot : Client := ⟨.thinClient, ⟨false, .domain "m", some 7, [""], none, none⟩⟩

/-- **A tab is lost**: two stores are asked for at one URL, and the path does not say of one of them
which it is. -/
theorem not_faithful_of_tab :
    Client.ofSettings? .standard ⟨"http://m:7", 5000⟩ = .ok atRoot ∧
      ThinClient.url atRoot.base "or\tders" .placement =
        ThinClient.url atRoot.base "orders" .placement ∧
      ¬ ∃ segments, (ThinClient.url atRoot.base "or\tders" .placement).path =
          atRoot.base.path.dropLast ++ segments ∧
        List.Forall₂ Decodes segments ["meta_store", "or\tders", "store_cluster_config"] := by
  refine ⟨by rfl, by decide, ?_⟩
  rintro ⟨segments, hpath, hdecodes⟩
  have hsegments : ["meta_store", "orders", "store_cluster_config"] = segments := hpath
  rw [← hsegments, List.forall₂_cons, List.forall₂_cons] at hdecodes
  have hbytes : decode "orders".toList = utf8 "or\tders" := hdecodes.2.1
  exact absurd hbytes (by decide)

end Http

end StoreCache
