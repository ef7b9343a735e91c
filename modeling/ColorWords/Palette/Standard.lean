import ColorWords.Palette

/-!
# The standard palette

Fifty-two common colors, the transparent color and five aliases. No name among them reads as
an adjective.
-/

namespace ColorWords

namespace Palette

/-- The standard colors with 8 bits per sRGB channel. -/
def standardColors : List (String × RGB UInt8) :=
  [("black", ⟨0x00, 0x00, 0x00⟩),
    ("charcoal", ⟨0x33, 0x33, 0x33⟩),
    ("gray", ⟨0x80, 0x80, 0x80⟩),
    ("silver", ⟨0xc0, 0xc0, 0xc0⟩),
    ("white", ⟨0xff, 0xff, 0xff⟩),
    ("red", ⟨0xff, 0x00, 0x00⟩),
    ("maroon", ⟨0x80, 0x00, 0x00⟩),
    ("scarlet", ⟨0xff, 0x24, 0x00⟩),
    ("carmine", ⟨0x96, 0x00, 0x18⟩),
    ("ruby", ⟨0xe0, 0x11, 0x5f⟩),
    ("rust", ⟨0xb7, 0x41, 0x0e⟩),
    ("brown", ⟨0x96, 0x4b, 0x00⟩),
    ("chocolate", ⟨0x7b, 0x3f, 0x00⟩),
    ("orange", ⟨0xff, 0x80, 0x00⟩),
    ("coral", ⟨0xff, 0x7f, 0x50⟩),
    ("salmon", ⟨0xfa, 0x80, 0x72⟩),
    ("peach", ⟨0xff, 0xcb, 0xa4⟩),
    ("tan", ⟨0xd2, 0xb4, 0x8c⟩),
    ("beige", ⟨0xf5, 0xf5, 0xdc⟩),
    ("khaki", ⟨0xc3, 0xb0, 0x91⟩),
    ("cream", ⟨0xff, 0xfd, 0xd0⟩),
    ("ivory", ⟨0xff, 0xff, 0xf0⟩),
    ("amber", ⟨0xff, 0xbf, 0x00⟩),
    ("gold", ⟨0xff, 0xd7, 0x00⟩),
    ("yellow", ⟨0xff, 0xff, 0x00⟩),
    ("olive", ⟨0x80, 0x80, 0x00⟩),
    ("lime", ⟨0xbf, 0xff, 0x00⟩),
    ("chartreuse", ⟨0x7f, 0xff, 0x00⟩),
    ("green", ⟨0x00, 0x80, 0x00⟩),
    ("forest", ⟨0x22, 0x8b, 0x22⟩),
    ("emerald", ⟨0x50, 0xc8, 0x78⟩),
    ("mint", ⟨0x98, 0xff, 0x98⟩),
    ("jade", ⟨0x00, 0xa8, 0x6b⟩),
    ("teal", ⟨0x00, 0x80, 0x80⟩),
    ("turquoise", ⟨0x40, 0xe0, 0xd0⟩),
    ("cyan", ⟨0x00, 0xff, 0xff⟩),
    ("sky", ⟨0x87, 0xce, 0xeb⟩),
    ("azure", ⟨0x00, 0x7f, 0xff⟩),
    ("cobalt", ⟨0x00, 0x47, 0xab⟩),
    ("blue", ⟨0x00, 0x00, 0xff⟩),
    ("navy", ⟨0x00, 0x00, 0x80⟩),
    ("indigo", ⟨0x4b, 0x00, 0x82⟩),
    ("violet", ⟨0x8f, 0x00, 0xff⟩),
    ("purple", ⟨0x80, 0x00, 0x80⟩),
    ("lavender", ⟨0xe6, 0xe6, 0xfa⟩),
    ("mauve", ⟨0xe0, 0xb0, 0xff⟩),
    ("plum", ⟨0x8e, 0x45, 0x85⟩),
    ("orchid", ⟨0xda, 0x70, 0xd6⟩),
    ("magenta", ⟨0xff, 0x00, 0xff⟩),
    ("pink", ⟨0xff, 0xc0, 0xcb⟩),
    ("rose", ⟨0xff, 0x00, 0x7f⟩),
    ("sand", ⟨0xc2, 0xb2, 0x80⟩)]

/-- The name of the color without alpha. -/
def transparentName : String := "transparent"

/-- The standard aliases, each with its target. -/
def standardAliases : List (String × String) :=
  [("grey", "gray"),
    ("aqua", "cyan"),
    ("fuchsia", "magenta"),
    ("lilac", "lavender"),
    ("crimson", "carmine")]

variable {α : Type} [Scalar α] [ColorModel α]

/-- The draft of the standard palette. -/
def standardDraft : Draft α where
  entries :=
    standardColors.map (fun (name, bytes) => (name, Color.ofBytes bytes)) ++
      [(transparentName, Color.neutral)]
  aliases := standardAliases

/-- The names of the standard colors, as the draft lists them. -/
theorem names_standardDraft :
    (standardDraft : Draft α).names = standardColors.map Prod.fst ++ [transparentName] := by
  simp [standardDraft, Draft.names, Function.comp_def]

/-- The standard names and aliases have no fault. -/
theorem firstError?_standard :
    Draft.firstError? (standardColors.map Prod.fst ++ [transparentName])
      standardAliases = none := by
  decide +kernel

/-- The standard palette. -/
def standard : Palette α where
  toDraft := standardDraft
  valid := by
    rw [Draft.error?, names_standardDraft]
    exact firstError?_standard

end Palette

end ColorWords
