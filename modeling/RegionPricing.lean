import RegionPricing.Batch.Answer
import RegionPricing.Batch.Check
import RegionPricing.Batch.Query
import RegionPricing.Batch.Request
import RegionPricing.Cache.Call
import RegionPricing.Cache.Expiring
import RegionPricing.Cache.Remote
import RegionPricing.Cache.Server
import RegionPricing.Cache.Tier
import RegionPricing.Decimal.Arithmetic
import RegionPricing.Decimal.Basic
import RegionPricing.Decimal.Rounding
import RegionPricing.Decimal.Text
import RegionPricing.Engine
import RegionPricing.Factor.Answers
import RegionPricing.Factor.Key
import RegionPricing.Factor.Layers
import RegionPricing.Factor.Table
import RegionPricing.Factor.Traffic
import RegionPricing.Failure
import RegionPricing.Fee.Bracket
import RegionPricing.Fee.Fallback
import RegionPricing.Fee.Row
import RegionPricing.Fee.Schedule
import RegionPricing.Fee.Tariff
import RegionPricing.FixedPoint
import RegionPricing.Formula
import RegionPricing.Json.Basic
import RegionPricing.Json.Double
import RegionPricing.Json.Reader
import RegionPricing.Json.Shape
import RegionPricing.Json.Writer
import RegionPricing.KeyMap
import RegionPricing.Main
import RegionPricing.Market.Gateway
import RegionPricing.Market.Quote
import RegionPricing.Market.Script
import RegionPricing.Market.Services
import RegionPricing.Market.Shop
import RegionPricing.Market.StagedGateway
import RegionPricing.Pool.Permits
import RegionPricing.Pool.State
import RegionPricing.Pool.Timeline
import RegionPricing.PowerOfTen
import RegionPricing.PriceRounding
import RegionPricing.Pricing.Backing
import RegionPricing.Pricing.Conversion
import RegionPricing.Pricing.CrossBorder
import RegionPricing.Pricing.Discounts
import RegionPricing.Pricing.HiddenFees
import RegionPricing.Pricing.Listings
import RegionPricing.Pricing.Quoting
import RegionPricing.Pricing.Sources
import RegionPricing.Pricing.Warehouses
import RegionPricing.Proofs.Batch.Dispatch
import RegionPricing.Proofs.Cache.Expiring
import RegionPricing.Proofs.Cache.Tier
import RegionPricing.Proofs.Decimal.Error
import RegionPricing.Proofs.Decimal.Nearest
import RegionPricing.Proofs.Decimal.Operations
import RegionPricing.Proofs.Decimal.Places
import RegionPricing.Proofs.Decimal.Value
import RegionPricing.Proofs.Engine
import RegionPricing.Proofs.Evaluation
import RegionPricing.Proofs.Factor.Answers
import RegionPricing.Proofs.Factor.Layers
import RegionPricing.Proofs.Factor.Staleness
import RegionPricing.Proofs.FixedPoint
import RegionPricing.Proofs.Formula
import RegionPricing.Proofs.KeyMap
import RegionPricing.Proofs.Pricing.ConversionPrice
import RegionPricing.Proofs.Pricing.Factors
import RegionPricing.Proofs.Pricing.HiddenFees
import RegionPricing.Proofs.Pricing.ListingPrice
import RegionPricing.Proofs.Pricing.Listings
import RegionPricing.Proofs.Pricing.Quoting
import RegionPricing.Proofs.Pricing.Session
import RegionPricing.Proofs.Pricing.Warehouses
import RegionPricing.Region
import RegionPricing.Rules.Book
import RegionPricing.Rules.Document
import RegionPricing.Rules.Publication
import RegionPricing.Rules.Terms
import RegionPricing.Service
import RegionPricing.Settings
import RegionPricing.Store
import RegionPricing.Store.Command
import RegionPricing.Text.Blank
import RegionPricing.Text.Digits
import RegionPricing.Text.Duration
import RegionPricing.Text.Quoted
import RegionPricing.Text.Unseen
import RegionPricing.Proofs.Fee.Precedence
import RegionPricing.Proofs.Pool.Conservation
import RegionPricing.Proofs.Cache.Contents
import RegionPricing.Proofs.Factor.Carrying
import RegionPricing.Proofs.Json.RoundTrip
import RegionPricing.Proofs.Pricing.StoredFactors
import RegionPricing.Proofs.Coherence
import RegionPricing.Proofs.Factor.Overlap
import RegionPricing.Proofs.Factor.Alone
import RegionPricing.Proofs.Pricing.RateUpdates
import RegionPricing.Proofs.Pricing.ThereAndBack
import RegionPricing.Proofs.Decimal.Order
import RegionPricing.Proofs.PriceRounding
import RegionPricing.Proofs.Formula.Order
import RegionPricing.Proofs.Pricing.Order
import RegionPricing.Proofs.Pool.Attention
import RegionPricing.Proofs.Decimal.ByValue
import RegionPricing.Proofs.Fee.Values
import RegionPricing.Proofs.Store.Brackets
import RegionPricing.Proofs.Store.Precision
import RegionPricing.Proofs.Batch.Refusal
import RegionPricing.Proofs.Validation
import RegionPricing.Proofs.Pricing.RateEntries
import RegionPricing.Proofs.RateHistory
import RegionPricing.Proofs.Cache.Lifetime
import RegionPricing.Proofs.Cache.Room
import RegionPricing.Proofs.Cache.Writes
import RegionPricing.Proofs.Factor.Resolved
import RegionPricing.Proofs.Pricing.Answering
import RegionPricing.Proofs.Pricing.Gathering
import RegionPricing.Proofs.Factor.ByKey
import RegionPricing.Proofs.Pricing.ByKey
import RegionPricing.Proofs.Fee.Rows
import RegionPricing.Proofs.Fee.Unbounded
import RegionPricing.Proofs.Fee.Fallback
import RegionPricing.Proofs.Rules.Loading
import RegionPricing.Proofs.Rules.Bounds
import RegionPricing.Proofs.Decimal.Whole
import RegionPricing.Proofs.Decimal.Enclosed
import RegionPricing.Proofs.Fee.Weights
import RegionPricing.Proofs.Fee.Order
import RegionPricing.Proofs.Fee.Exact
import RegionPricing.Proofs.Fee.Selection
import RegionPricing.Proofs.FixedPoint.Nearest
import RegionPricing.Proofs.PriceRounding.PricePoints
import RegionPricing.Proofs.Formula.Discount
import RegionPricing.Proofs.Pricing.Discounts
import RegionPricing.Proofs.Fee.Cells
import RegionPricing.Proofs.Fee.Acceptance
import RegionPricing.Proofs.Pricing.Positions
import RegionPricing.Proofs.Cache.Eviction
import RegionPricing.Proofs.Factor.Asking
import RegionPricing.Proofs.Pricing.WarehouseFees
import RegionPricing.Proofs.Pricing.Buckets
import RegionPricing.Proofs.Cache.Commands
import RegionPricing.Proofs.Cache.Space
