import Quire.Page.Layout
import Quire.Proofs.Document.Targets
import Quire.Proofs.Html.Escape

/-!
# References to assets

A page refers to its style sheet, its script and its images, and names its title. A value is read in
it as a browser reads it: from where it begins up to the quote or the tag that ends it, with the
entities read. Where a value begins is told by what stands before it on the page (`upToStyle`,
`upToTitle`, `upToImage`, `upToScript`).

The title and the names of images are escaped, so they are read as they are. The name of the output
directory is escaped in the links of the navigation, but not where an asset is referred to. **So the
references are read as they are meant exactly if that name reads as itself**: no quote stands in it,
and no entity (`asset_references`).
-/

namespace Quire.Page

open Quire.Document (Block IsLastComponent isLastComponent_imageName)
open Quire.Html (escapeChars escapeChars_special unescapeChars unescapeChars_append_cons)
open Quire.Site (Toc)

/-! ## 1. Reading a value -/

/-- The value of an attribute that is read from behind its opening quote. -/
def attributeValue (s : String) : String :=
  String.ofList (unescapeChars (s.toList.takeWhile (· ≠ '\x22')))

/-- The text of an element that is read from behind its opening tag up to the next tag. -/
def elementText (s : String) : String :=
  String.ofList (unescapeChars (s.toList.takeWhile (· ≠ '<')))

/-- Whether a text is read as itself where it is not escaped: between quotes it neither ends early
nor holds an entity. -/
def ReadsAsItself (s : String) : Prop :=
  '\x22' ∉ s.toList ∧ Html.unescape s = s

/-- Text without the character that ends a value is read up to it. -/
theorem takeWhile_append_cons_of_not_mem {c : Char} {s : List Char} (h : c ∉ s) (t : List Char) :
    (s ++ c :: t).takeWhile (· ≠ c) = s := by
  have hs : ∀ d ∈ s, decide (d ≠ c) = true := fun d hd =>
    decide_eq_true (ne_of_mem_of_not_mem hd h)
  rw [List.takeWhile_append_of_pos hs, List.takeWhile_cons_of_neg (by simp), List.append_nil]

/-- **A title that was escaped is read as it is.** -/
theorem elementText_escape (title s : String) :
    elementText (Html.escape title ++ ("<" ++ s)) = title := by
  have hbracket : '<' ∉ (Html.escape title).toList := by
    rw [Html.escape, String.toList_ofList]
    exact fun h => (escapeChars_special h).1 rfl
  have htag : ("<" ++ s).toList = '<' :: s.toList := String.toList_append
  rw [elementText, String.toList_append, htag, takeWhile_append_cons_of_not_mem hbracket]
  exact Html.unescape_escape title

/-- Up to the next quote, a value without quotes is read. -/
theorem attributeValue_append {value : String} (h : '\x22' ∉ value.toList) (s : String) :
    attributeValue (value ++ ("\"" ++ s)) = Html.unescape value := by
  have hquote : ("\"" ++ s).toList = '\x22' :: s.toList := String.toList_append
  rw [attributeValue, String.toList_append, hquote, takeWhile_append_cons_of_not_mem h]
  rfl

/-- A slash is in no entity, so what stands before it and what stands behind it are read apart. -/
theorem unescape_append_slash (s t : String) :
    Html.unescape (s ++ ("/" ++ t)) = Html.unescape s ++ ("/" ++ Html.unescape t) := by
  have hslash : '/' ∉ Html.entities := by decide
  have hread : unescapeChars ('/' :: t.toList) = '/' :: unescapeChars t.toList :=
    unescapeChars_append_cons hslash [] t.toList
  have hpart (t : String) : ("/" ++ t).toList = '/' :: t.toList := String.toList_append
  rw [← String.toList_inj]
  simp only [Html.unescape, String.toList_ofList, String.toList_append (s := s), hpart,
    unescapeChars_append_cons hslash, hread, String.toList_append]

/-- **A directory in front of a reference is read as it is exactly if it reads as itself.** A quote
in it would cut the reference short, and what is left of it could only become shorter by reading. -/
theorem attributeValue_eq_iff (output : String) {tail : String} (htail : '\x22' ∉ tail.toList)
    (s : String) :
    attributeValue (output ++ ("/" ++ (tail ++ ("\"" ++ s)))) =
        output ++ ("/" ++ Html.unescape tail) ↔ ReadsAsItself output := by
  have hwhole (h : '\x22' ∉ output.toList) :
      attributeValue (output ++ ("/" ++ (tail ++ ("\"" ++ s)))) =
        Html.unescape output ++ ("/" ++ Html.unescape tail) := by
    have hquote : '\x22' ∉ (output ++ ("/" ++ tail)).toList := by
      simp only [String.toList_append, List.mem_append, not_or]
      exact ⟨h, by decide, htail⟩
    have hread := attributeValue_append hquote s
    rwa [String.append_assoc, String.append_assoc, unescape_append_slash] at hread
  constructor
  · intro h
    have hquote : '\x22' ∉ output.toList := by
      intro hq
      obtain ⟨a, b, houtput, ha⟩ := List.eq_append_cons_of_mem hq
      have hcut : (attributeValue (output ++ ("/" ++ (tail ++ ("\"" ++ s))))).toList =
          unescapeChars a := by
        rw [attributeValue, String.toList_ofList, String.toList_append, houtput, List.append_assoc,
          List.cons_append, takeWhile_append_cons_of_not_mem ha]
      have hle := Html.length_unescapeChars_le a
      rw [← hcut, h, String.toList_append, houtput] at hle
      simp only [List.length_append, List.length_cons] at hle
      omega
    rw [hwhole hquote] at h
    exact ⟨hquote, (String.append_left_inj _).1 h⟩
  · rintro ⟨hquote, hself⟩
    rw [hwhole hquote, hself]

/-! ## 2. Where the values stand -/

/-- A page up to the reference to its style sheet. -/
def upToStyle : String :=
  "<!DOCTYPE html>\n<html lang=\"en\">\n" ++ "<head>\n  <meta charset=\"UTF-8\">\n"
    ++ "  <meta name=\"viewport\" content=\"width=device-width, initial-scale=1\">\n"
    ++ "  <link href=\""

/-- A page up to its title. -/
def upToTitle (c : Context) : String :=
  upToStyle ++ s!"{c.resources}/{styleFile}\" rel=\"stylesheet\" />\n" ++ "  <title>"

/-- A page up to its first block. -/
def upToMain (c : Context) (title : String) (toc : Toc) : String :=
  upToTitle c ++ s!"{Html.escape title}</title>\n</head>\n"
    ++ s!"<body>\n{navigation c toc}\n<main>\n"

/-- A page up to the reference to an image that comes after some blocks. -/
def upToImage (c : Context) (title : String) (toc : Toc) (earlier : List Block) : String :=
  upToMain c title toc ++ String.join (earlier.map fun b => blockMarkup c b ++ "\n")
    ++ "<img src=\""

/-- A page up to the reference to its script. -/
def upToScript (c : Context) (title : String) (blocks : List Block) (toc : Toc) : String :=
  upToMain c title toc ++ s!"{mainMarkup c blocks}\n</main>\n" ++ "<script src=\""

/-- The style sheet, in the first part of a page. -/
theorem upToTitle_eq (c : Context) :
    upToTitle c = upToStyle ++ (c.resources ++ ("/" ++ (styleFile ++
      ("\"" ++ (" rel=\"stylesheet\" />\n" ++ "  <title>"))))) := by
  have htext (s : String) : toString s = s := rfl
  have hquote : "\" rel=\"stylesheet\" />\n" = "\"" ++ " rel=\"stylesheet\" />\n" := by rfl
  unfold upToTitle
  simp only [htext, hquote, String.append_assoc]

/-- The title, in the first part of a page. -/
theorem upToMain_eq (c : Context) (title : String) (toc : Toc) :
    upToMain c title toc = upToTitle c ++ (Html.escape title ++ ("<" ++ ("/title>\n</head>\n" ++
      s!"<body>\n{navigation c toc}\n<main>\n"))) := by
  have htext (s : String) : toString s = s := rfl
  have hbracket : "</title>\n</head>\n" = "<" ++ "/title>\n</head>\n" := by rfl
  unfold upToMain
  simp only [htext, hbracket, String.append_assoc]

/-- The script, behind the blocks of a page. -/
theorem pageMarkup_eq (c : Context) (title : String) (blocks : List Block) (toc : Toc) :
    pageMarkup c title blocks toc = upToScript c title blocks toc ++ (c.resources ++
      ("/" ++ (scriptFile ++ ("\"" ++ "></script>\n</body>\n</html>\n")))) := by
  have htext (s : String) : toString s = s := rfl
  have hquote : "\"></script>\n</body>\n</html>\n" =
      "\"" ++ "></script>\n</body>\n</html>\n" := by rfl
  unfold pageMarkup headMarkup upToScript upToMain upToTitle upToStyle
  simp only [htext, hquote, String.append_assoc]

/-- A block stands behind the blocks before it, each of which ends in a line feed. -/
theorem exists_mainMarkup_eq (c : Context) (earlier : List Block) (b : Block) (later : List Block) :
    ∃ s, mainMarkup c (earlier ++ b :: later) =
      String.join (earlier.map fun b => blockMarkup c b ++ "\n") ++ (blockMarkup c b ++ s) := by
  simp only [mainMarkup, List.map_append, List.map_cons]
  induction earlier with
  | nil =>
      cases later with
      | nil =>
          refine ⟨"", ?_⟩
          simp only [List.map_nil, List.nil_append, String.intercalate_singleton, String.join_nil,
            String.empty_append, String.append_empty]
      | cons b' later =>
          refine ⟨"\n" ++ "\n".intercalate ((b' :: later).map (blockMarkup c)), ?_⟩
          rw [List.map_nil, List.map_nil, List.nil_append, List.map_cons,
            String.intercalate_cons_cons, String.append_assoc, String.join_nil, String.empty_append]
  | cons b' earlier ih =>
      obtain ⟨s, hs⟩ := ih
      refine ⟨s, ?_⟩
      rw [List.map_cons, List.cons_append, String.intercalate_cons_of_ne_nil (by simp), hs,
        List.map_cons, String.join_cons]
      simp only [String.append_assoc]

/-- An image among the blocks of a page. -/
theorem exists_pageMarkup_eq (c : Context) (title : String) (toc : Toc) (earlier : List Block)
    (alt path : String) (later : List Block) :
    ∃ s, pageMarkup c title (earlier ++ .image alt path :: later) toc =
      upToImage c title toc earlier ++ (c.images ++
        ("/" ++ (Html.escape (imageName path) ++ ("\"" ++ s)))) := by
  have htext (s : String) : toString s = s := rfl
  have hquote : "\" alt=\"" = "\"" ++ " alt=\"" := by rfl
  have himage : blockMarkup c (.image alt path) = imageMarkup c alt path := rfl
  obtain ⟨s, hs⟩ := exists_mainMarkup_eq c earlier (.image alt path) later
  have hpage := pageMarkup_eq c title (earlier ++ .image alt path :: later) toc
  rw [upToScript, hs, himage, imageMarkup] at hpage
  rw [upToImage]
  simp only [htext, hquote, String.append_assoc] at hpage ⊢
  exact ⟨_, hpage⟩

/-! ## 3. What is read there -/

/-- A file in a directory inside the output directory is referred to as it is meant exactly if the
name of the output directory reads as itself. -/
theorem reference_eq_iff (output : String) {dir file : String} (hdir : '\x22' ∉ dir.toList)
    (hfile : '\x22' ∉ file.toList) (hread : Html.unescape dir = dir) (s : String) :
    attributeValue ((Context.index output).toOutput dir ++ ("/" ++ (file ++ ("\"" ++ s)))) =
        output ++ ("/" ++ (dir ++ ("/" ++ Html.unescape file))) ↔ ReadsAsItself output := by
  have htext (s : String) : toString s = s := rfl
  have htail : '\x22' ∉ (dir ++ ("/" ++ file)).toList := by
    simp only [String.toList_append, List.mem_append, not_or]
    exact ⟨hdir, by decide, hfile⟩
  have h := attributeValue_eq_iff output htail s
  rw [unescape_append_slash, hread] at h
  simpa only [Context.toOutput, htext, String.append_assoc] using h

/-- **A page refers to its assets as it is meant to exactly if the name of the output directory reads
as itself.** On the index, the reference to the style sheet, the one to the script and the one of
every image, read up to the next quote with the entities read, are the files in the output directory
exactly if no quote and no entity stands in its name; whatever is in the names of images does no
harm. The title is read as it is, whatever stands in it. -/
theorem asset_references (output title : String) (toc : Toc) (blocks : List Block) :
    let c := Context.index output
    let page := pageMarkup c title blocks toc
    (∃ s, page = upToStyle ++ s ∧
      (attributeValue s = output ++ "/Res/Style.css" ↔ ReadsAsItself output)) ∧
    (∃ s, page = upToScript c title blocks toc ++ s ∧
      (attributeValue s = output ++ "/Res/JS.js" ↔ ReadsAsItself output)) ∧
    (∀ earlier alt path later, blocks = earlier ++ .image alt path :: later →
      ∃ name s, IsLastComponent path name ∧ page = upToImage c title toc earlier ++ s ∧
        (attributeValue s = output ++ "/Img/" ++ name ↔ ReadsAsItself output)) ∧
    ∃ s, page = upToTitle c ++ s ∧ elementText s = title := by
  intro c page
  have hres : Html.unescape resourceDir = resourceDir := rfl
  have himg : Html.unescape imageDir = imageDir := rfl
  have hpage : page = upToScript c title blocks toc ++ _ := pageMarkup_eq c title blocks toc
  have htitle := hpage
  rw [upToScript, upToMain_eq] at htitle
  have hstyle := htitle
  rw [upToTitle_eq] at hstyle
  simp only [String.append_assoc] at htitle hstyle
  refine ⟨?style, ?script, ?image, ?text⟩
  case style =>
    exact ⟨_, hstyle, reference_eq_iff output (by decide) (by decide) hres _⟩
  case script =>
    exact ⟨_, hpage, reference_eq_iff output (by decide) (by decide) hres _⟩
  case image =>
    rintro earlier alt path later rfl
    obtain ⟨s, hs⟩ := exists_pageMarkup_eq c title toc earlier alt path later
    have hquote : '\x22' ∉ (Html.escape (imageName path)).toList := by
      rw [Html.escape, String.toList_ofList]
      exact fun h => (escapeChars_special h).2.2 rfl
    have href := reference_eq_iff output (by decide) hquote himg s
    rw [Html.unescape_escape] at href
    refine ⟨imageName path, _, isLastComponent_imageName path, hs, ?_⟩
    rw [String.append_assoc]
    exact href
  case text =>
    exact ⟨_, htitle, elementText_escape title _⟩

/-- Behind a paragraph an image is referred to as it is meant to, if the output directory is called
`out`; if a quote stands in that name, the style sheet is not. -/
theorem asset_references_image :
    [Block.paragraph "p", .image "x" "a/b&c.png"] =
      [.paragraph "p"] ++ .image "x" "a/b&c.png" :: [] ∧
    (∃ name s, IsLastComponent "a/b&c.png" name ∧
      pageMarkup (.index "out") "t" [.paragraph "p", .image "x" "a/b&c.png"] .empty =
        upToImage (.index "out") "t" .empty [.paragraph "p"] ++ s ∧
      attributeValue s = "out" ++ "/Img/" ++ name) ∧
    ∃ s, pageMarkup (.index "a\"b") "t" [] .empty = upToStyle ++ s ∧
      attributeValue s ≠ "a\"b" ++ "/Res/Style.css" := by
  have hout : ReadsAsItself "out" := ⟨by decide, rfl⟩
  have hquote : ¬ ReadsAsItself "a\"b" := fun h => h.1 (by decide)
  refine ⟨rfl, ?_, ?_⟩
  · obtain ⟨-, -, himage, -⟩ :=
      asset_references "out" "t" .empty [.paragraph "p", .image "x" "a/b&c.png"]
    obtain ⟨name, s, hname, hpage, href⟩ := himage [.paragraph "p"] "x" "a/b&c.png" [] rfl
    exact ⟨name, s, hname, hpage, href.2 hout⟩
  · obtain ⟨⟨s, hpage, href⟩, -⟩ := asset_references "a\"b" "t" .empty []
    exact ⟨s, hpage, fun h => hquote (href.1 h)⟩

end Quire.Page
