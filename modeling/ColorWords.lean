import ColorWords.Color.Hash
import ColorWords.Main
import ColorWords.Palette.Listing
import ColorWords.Proofs.Description.Agreement
import ColorWords.Proofs.Palette.Build
import ColorWords.Proofs.Color.Hashed
import ColorWords.Proofs.Color.Mean
import ColorWords.Proofs.Description.Parts
import ColorWords.Proofs.Palette.Sorted
import ColorWords.Proofs.Palette.Rearranged
import ColorWords.Proofs.Decimal.Text
import ColorWords.Proofs.Color.Functional
import ColorWords.Proofs.Scalar.Rational
import ColorWords.Proofs.Color.RoundTrip
import ColorWords.Proofs.Palette.Listing
import ColorWords.Proofs.Decimal.Spelling
import ColorWords.Proofs.Palette.Lines
import ColorWords.Proofs.Color.FloatGamut
import ColorWords.Proofs.Color.Reachable
import ColorWords.Proofs.Color.FloatDistance
import ColorWords.Proofs.Search.FloatScores
import ColorWords.Proofs.Adjective
import ColorWords.Proofs.Color.GamutSearch
import ColorWords.Proofs.Description.Rewording
import ColorWords.Proofs.Description.Cancelling
import ColorWords.Proofs.Color.Printed
import ColorWords.Proofs.Description.Names
import ColorWords.Proofs.Color.FloatPrinted
import ColorWords.Proofs.Palette.FloatListing
import ColorWords.Proofs.Color.Equality
import ColorWords.Proofs.Text.Runs
import ColorWords.Proofs.Adjective.Shape
import ColorWords.Proofs.Search.Monotone
import ColorWords.Proofs.Space.Transfer
import ColorWords.Proofs.Color.Gray
import ColorWords.Proofs.Palette.Closest
import ColorWords.Proofs.Color.Mixture
